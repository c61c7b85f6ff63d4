import SourceGauge.Issue
import SourceGauge.Maintainability

namespace SourceGauge

structure Metrics where
  complexity : Nat
  maintainability : Nat
  linesOfCode : Nat
  issues : List Issue
deriving DecidableEq, Repr

namespace Metrics

def countOf (m : Metrics) (kind : Issue.Kind) : Nat := m.issues.countP (·.kind = kind)

def rating (m : Metrics) : Rating := .ofScore m.maintainability

def ofText (text : List Char) : Metrics where
  complexity := Complexity.ofText text
  maintainability := Maintainability.ofText text
  linesOfCode := (LineCount.ofText text).physical
  issues := Issue.ofText text

end Metrics

/-- What is known about one identifier, usually a path. -/
structure Result where
  identifier : String
  metrics : Metrics
deriving DecidableEq, Repr

namespace Result

def analyze (identifier content : String) : Result := ⟨identifier, .ofText content.toList⟩

def failureMessage (reason : String) : String := "Failed to analyze file: " ++ reason

/-- Stands in for content that could not be read. Complexity zero marks it: a text always has
complexity one or more. -/
def failure (identifier reason : String) : Result :=
  ⟨identifier, 0, 0, 0, [⟨.error, failureMessage reason, 1, 1⟩]⟩

def isFailure (r : Result) : Bool := r.metrics.complexity == 0

def firstError? (r : Result) : Option Issue := r.metrics.issues.find? (·.kind = .error)

end Result
end SourceGauge
