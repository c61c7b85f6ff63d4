import SourceGauge.Color
import SourceGauge.Summary

namespace SourceGauge.Report.Terminal

def ratingStyle : Rating → Style
  | .good => .success
  | .fair => .warning
  | .poor => .error

def kindStyle : Issue.Kind → Style
  | .error => .error
  | .warning => .warning
  | .suggestion => .info

def issueLines (colored : Bool) (i : Issue) : List String := [
    "    " ++ (kindStyle i.kind).paint colored ("[" ++ i.kind.label ++ "]") ++ " " ++ i.message,
    "      " ++ Style.dim.paint colored
      ("Line " ++ toString i.line ++ ", Column " ++ toString i.column)]

def resultLines (colored : Bool) (r : Result) : List String :=
  let m := r.metrics
  let badge := (ratingStyle m.rating).paint colored (toString m.maintainability ++ "% Maintainable")
  [Style.bold.paint colored r.identifier ++ "  " ++ badge,
    "  Complexity: " ++ toString m.complexity ++ "  Lines of Code: " ++ toString m.linesOfCode ++
      "  Issues Found: " ++ toString m.issues.length] ++
  (if m.issues.isEmpty then [] else "  Issues:" :: m.issues.flatMap (issueLines colored)) ++ [""]

def summaryLine (colored : Bool) (s : Summary) : String :=
  Style.bold.paint colored "Summary:" ++ " " ++ toString s.filesAnalyzed ++ " files analyzed, " ++
    toString s.failedFiles ++ " failed, " ++ toString s.totalIssues ++ " issues (" ++
    toString s.errors ++ " errors, " ++ toString s.warnings ++ " warnings, " ++
    toString s.suggestions ++ " suggestions)"

def lines (colored : Bool) (results : List Result) : List String :=
  if results.isEmpty then
    ["No files analyzed", Style.dim.paint colored "Select files to begin code analysis"]
  else
    [Style.header.paint colored "Code Analysis", Style.header.paint colored "=============", ""] ++
      results.flatMap (resultLines colored) ++ [summaryLine colored (.ofResults results)]

end SourceGauge.Report.Terminal
