import SourceGauge.Text.Lines
import SourceGauge.Text.Occurrence

namespace SourceGauge
open Text

inductive Issue.Kind where
  | error
  | warning
  | suggestion
deriving DecidableEq, Repr

def Issue.Kind.label : Issue.Kind → String
  | .error => "error"
  | .warning => "warning"
  | .suggestion => "suggestion"

/-- One condition found at a position. Lines and columns count from one. -/
structure Issue where
  kind : Issue.Kind
  message : String
  line : Nat
  column : Nat
deriving DecidableEq, Repr

namespace Issue

def longestLine : Nat := 100

def longLineMessage : String := "Line is too long (over 100 characters)"

def debugPrintMarker : List Char := ['c', 'o', 'n', 's', 'o', 'l', 'e', '.', 'l', 'o', 'g']

def debugPrintMessage : String := "Consider removing console.log statements in production code"

def todoMarker : List Char := ['T', 'O', 'D', 'O']

def todoMessage : String := "TODO comment found"

/-- Column of the first occurrence of the marker. -/
def markerColumn? (line marker : List Char) : Option Nat := (offset? marker line).map (· + 1)

/-- The column is the first one past the limit, however long the line is. -/
def longLine? (number : Nat) (line : List Char) : Option Issue :=
  if longestLine < line.length then some ⟨.warning, longLineMessage, number, longestLine + 1⟩
  else none

def debugPrint? (number : Nat) (line : List Char) : Option Issue :=
  (markerColumn? line debugPrintMarker).map (⟨.suggestion, debugPrintMessage, number, ·⟩)

def todo? (number : Nat) (line : List Char) : Option Issue :=
  (markerColumn? line todoMarker).map (⟨.suggestion, todoMessage, number, ·⟩)

/-- At most one issue from each check, in this order. -/
def ofLine (number : Nat) (line : List Char) : List Issue :=
  (longLine? number line).toList ++ (debugPrint? number line).toList ++ (todo? number line).toList

/-- The issues of lines numbered from `number` on. -/
def ofLinesFrom (number : Nat) : List (List Char) → List Issue
  | [] => []
  | line :: rest => ofLine number line ++ ofLinesFrom (number + 1) rest

def ofText (text : List Char) : List Issue := ofLinesFrom 1 (lines text)

end Issue
end SourceGauge
