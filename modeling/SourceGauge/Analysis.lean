import SourceGauge.Batch
import SourceGauge.Selection
import SourceGauge.Settings

namespace SourceGauge.Analysis

/-- The text of files by their paths. -/
def source (fs : FileSystem) : Source := fun identifier =>
  (fs.readText identifier.toList).mapError (·.message)

/-- The results for some files, in order, taken from a store that a batch has filled. -/
def resultsFor (fs : FileSystem) (p : Parallel) (files : List (List Char)) :
    List Result × List Log.Record :=
  let (store, report, log) := Batch.intoStore {} (source fs) p (files.map String.ofList)
  let warning :=
    if report.hasFailures then
      [Log.warn (toString report.notifications.length ++ " files could not be read")]
    else []
  (report.analyzed.filterMap store.get?, log ++ warning)

/-- Selects files and analyses them. -/
def run (fs : FileSystem) (s : Settings) (paths : List String) :
    Except Error (List Result) × List Log.Record :=
  match Selection.select fs s.extensions s.ignore (paths.map String.toList) with
  | (.error e, log) => (.error e, log)
  | (.ok files, log) =>
    let (rs, more) := resultsFor fs s.parallel files
    (.ok rs, log ++ Log.info ("Selected " ++ toString files.length ++ " files") :: more)

end SourceGauge.Analysis
