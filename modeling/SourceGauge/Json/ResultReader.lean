import SourceGauge.Json.Reader
import SourceGauge.Result

namespace SourceGauge.Json

def kindNamed (label : String) : Except Fault Issue.Kind :=
  match label with
  | "error" => .ok .error
  | "warning" => .ok .warning
  | "suggestion" => .ok .suggestion
  | _ => .error .mismatch

def null (cs : List Char) : Except Fault (List Char) :=
  match skipBlanks cs with
  | 'n' :: rest => name ['u', 'l', 'l'] rest
  | cs => .error (unexpected cs)

/-- A kind is its label, or an object whose only key is the label and whose value is null. -/
def readKind : Reader Issue.Kind := fun cs =>
  match skipBlanks cs with
  | '"' :: rest => do
    let (label, rest) ← stringBody rest
    return (← kindNamed (String.ofList label), rest)
  | '{' :: rest => do
    let (label, rest) ← string rest
    let kind ← kindNamed label
    let rest ← null (← colon rest)
    match skipBlanks rest with
    | '}' :: rest => return (kind, rest)
    | [] => .error .unfinished
    | _ => .error .malformed
  | [] => .error .unfinished
  | _ => .error .malformed

def count : Reader Nat := natural (capacity 64)

structure IssueFields where
  kind : Option Issue.Kind := none
  message : Option String := none
  line : Option Nat := none
  column : Option Nat := none

/-- Unknown members are passed over. -/
def issueMember (key : String) (s : IssueFields) : Reader IssueFields :=
  match key with
  | "type" => once s.kind readKind ({ s with kind := · })
  | "message" => once s.message string ({ s with message := · })
  | "line" => once s.line count ({ s with line := · })
  | "column" => once s.column count ({ s with column := · })
  | _ => fun cs => do
    let (_, rest) ← ignore (← colon cs)
    return (s, rest)

def readIssue : Reader Issue :=
  record
    (fun cs => do
      let (kind, cs) ← slot true readKind cs
      let (message, cs) ← slot false string cs
      let (line, cs) ← slot false count cs
      let (column, cs) ← slot false count cs
      return (⟨kind, message, line, column⟩, cs))
    (fun cs => do
      let (s, cs) ← members issueMember {} cs
      return (⟨← wanted s.kind, ← wanted s.message, ← wanted s.line, ← wanted s.column⟩, cs))

structure MetricsFields where
  complexity : Option Nat := none
  maintainability : Option Nat := none
  linesOfCode : Option Nat := none
  issues : Option (List Issue) := none

def metricsMember (key : String) (s : MetricsFields) : Reader MetricsFields :=
  match key with
  | "complexity" => once s.complexity (natural (capacity 32)) ({ s with complexity := · })
  | "maintainability" =>
    once s.maintainability (natural (capacity 8)) ({ s with maintainability := · })
  | "linesOfCode" => once s.linesOfCode count ({ s with linesOfCode := · })
  | "issues" => once s.issues (array readIssue) ({ s with issues := · })
  | _ => fun cs => do
    let (_, rest) ← ignore (← colon cs)
    return (s, rest)

def readMetrics : Reader Metrics :=
  record
    (fun cs => do
      let (complexity, cs) ← slot true (natural (capacity 32)) cs
      let (maintainability, cs) ← slot false (natural (capacity 8)) cs
      let (linesOfCode, cs) ← slot false count cs
      let (issues, cs) ← slot false (array readIssue) cs
      return (⟨complexity, maintainability, linesOfCode, issues⟩, cs))
    (fun cs => do
      let (s, cs) ← members metricsMember {} cs
      return (⟨← wanted s.complexity, ← wanted s.maintainability, ← wanted s.linesOfCode,
        ← wanted s.issues⟩, cs))

structure ResultFields where
  filePath : Option String := none
  metrics : Option Metrics := none

def resultMember (key : String) (s : ResultFields) : Reader ResultFields :=
  match key with
  | "filePath" => once s.filePath string ({ s with filePath := · })
  | "metrics" => once s.metrics readMetrics ({ s with metrics := · })
  | _ => fun cs => do
    let (_, rest) ← ignore (← colon cs)
    return (s, rest)

def readResult : Reader Result :=
  record
    (fun cs => do
      let (filePath, cs) ← slot true string cs
      let (metrics, cs) ← slot false readMetrics cs
      return (⟨filePath, metrics⟩, cs))
    (fun cs => do
      let (s, cs) ← members resultMember {} cs
      return (⟨← wanted s.filePath, ← wanted s.metrics⟩, cs))

/-- The result that a text describes. -/
def parseResult (text : String) : Except Fault Result := whole readResult text.toList

/-- The results that a report describes. -/
def parseResults (text : String) : Except Fault (List Result) :=
  whole (array readResult) text.toList

end SourceGauge.Json
