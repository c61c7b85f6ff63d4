import SourceGauge.Result

namespace SourceGauge

/-- Figures over a list of results. The sums leave out failures. -/
structure Summary where
  filesAnalyzed : Nat := 0
  failedFiles : Nat := 0
  totalLines : Nat := 0
  complexitySum : Nat := 0
  maintainabilitySum : Nat := 0
  errors : Nat := 0
  warnings : Nat := 0
  suggestions : Nat := 0
deriving DecidableEq, Repr

namespace Summary

def add (s t : Summary) : Summary where
  filesAnalyzed := s.filesAnalyzed + t.filesAnalyzed
  failedFiles := s.failedFiles + t.failedFiles
  totalLines := s.totalLines + t.totalLines
  complexitySum := s.complexitySum + t.complexitySum
  maintainabilitySum := s.maintainabilitySum + t.maintainabilitySum
  errors := s.errors + t.errors
  warnings := s.warnings + t.warnings
  suggestions := s.suggestions + t.suggestions

/-- A failure brings its issues and nothing else. -/
def ofResult (r : Result) : Summary where
  filesAnalyzed := if r.isFailure then 0 else 1
  failedFiles := if r.isFailure then 1 else 0
  totalLines := if r.isFailure then 0 else r.metrics.linesOfCode
  complexitySum := if r.isFailure then 0 else r.metrics.complexity
  maintainabilitySum := if r.isFailure then 0 else r.metrics.maintainability
  errors := r.metrics.countOf .error
  warnings := r.metrics.countOf .warning
  suggestions := r.metrics.countOf .suggestion

def ofResults (results : List Result) : Summary :=
  results.foldl (fun s r => s.add (ofResult r)) {}

def totalIssues (s : Summary) : Nat := s.errors + s.warnings + s.suggestions

/-- The mean of no values is zero. -/
def mean (sum count : Nat) : Float :=
  if count = 0 then 0 else Float.ofNat sum / Float.ofNat count

def averageComplexity (s : Summary) : Float := mean s.complexitySum s.filesAnalyzed

def averageMaintainability (s : Summary) : Float := mean s.maintainabilitySum s.filesAnalyzed

end Summary
end SourceGauge
