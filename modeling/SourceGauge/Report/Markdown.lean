import SourceGauge.Decimal
import SourceGauge.Summary

namespace SourceGauge.Report.Markdown

def version : String := "0.1.0"

def escapeChar (c : Char) : List Char := if c = '|' then ['\\', '|'] else [c]

/-- A pipe inside a cell is written with a backslash in front. Nothing else is changed. -/
def escapeCell (text : String) : String := String.ofList (text.toList.flatMap escapeChar)

/-- A table row: each cell has one space on either side. -/
def row (cells : List String) : String := "|" ++ String.join (cells.map fun c => " " ++ c ++ " |")

def headerLines (time : String) : List String := [
    "# Code Analysis Report", "", "Generated: " ++ time, "Version: " ++ version, ""]

def summaryLines (s : Summary) : List String := [
    "## Summary", "", row ["Metric", "Value"], "|--------|-------|",
    row ["Files Analyzed", toString s.filesAnalyzed],
    row ["Failed Files", toString s.failedFiles],
    row ["Total Lines", toString s.totalLines],
    row ["Average Complexity", Decimal.fixed1 s.averageComplexity],
    row ["Average Maintainability", Decimal.fixed1 s.averageMaintainability ++ "%"],
    row ["Errors", toString s.errors],
    row ["Warnings", toString s.warnings],
    row ["Suggestions", toString s.suggestions], ""]

def fileRow (r : Result) : String :=
  let m := r.metrics
  row [escapeCell r.identifier, toString m.maintainability ++ "% (" ++ m.rating.label ++ ")",
    toString m.complexity, toString m.linesOfCode, toString m.issues.length]

def fileLines (results : List Result) : List String :=
  if results.isEmpty then ["No files analyzed."]
  else
    ["## Files", "", row ["File", "Maintainability", "Complexity", "Lines", "Issues"],
      "|------|-----------------|------------|-------|--------|"] ++
    results.map fileRow ++ [""]

def issueRow (i : Issue) : String :=
  row [toString i.line, toString i.column, i.kind.label, escapeCell i.message]

def issueLines (r : Result) : List String :=
  ["### " ++ r.identifier, "", row ["Line", "Column", "Type", "Message"],
    "|------|--------|------|---------|"] ++
  r.metrics.issues.map issueRow ++ [""]

def issueSection (results : List Result) : List String :=
  let found := results.filter (!·.metrics.issues.isEmpty)
  if found.isEmpty then [] else ["## Issues", ""] ++ found.flatMap issueLines

def lines (time : String) (results : List Result) : List String :=
  headerLines time ++ summaryLines (.ofResults results) ++ fileLines results ++
    issueSection results

end SourceGauge.Report.Markdown
