import SourceGauge.Json.Printer
import SourceGauge.Report.Markdown
import SourceGauge.Report.Terminal

namespace SourceGauge.Report

inductive Format where
  | terminal
  | json
  | markdown
deriving DecidableEq, Repr

def Format.label : Format → String
  | .terminal => "terminal"
  | .json => "json"
  | .markdown => "markdown"

def Format.all : List Format := [.terminal, .json, .markdown]

def Format.parse? (s : String) : Option Format := Format.all.find? (·.label = s)

/-- Every line ends with a line feed, the last one too. -/
def unlines (ls : List String) : String := String.join (ls.map (· ++ "\n"))

/-- The whole report. Only the terminal report knows colours and only the Markdown report shows the
time. -/
def render (format : Format) (colored : Bool) (time : String) (results : List Result) : String :=
  match format with
  | .terminal => unlines (Terminal.lines colored results)
  | .json => unlines [String.ofList (Json.results results)]
  | .markdown => unlines (Markdown.lines time results)

end SourceGauge.Report
