import SourceGauge.Command

namespace SourceGauge.Proofs.CommandEffect
open Command

/-- An outcome without the log and the workers. -/
structure Effect where
  output : String := ""
  failure : Option Failure := none
  files : FileSystem

def effect (x : Outcome) : Effect := ⟨x.output, x.failure, x.world.files⟩

/-- The report that the options and the configuration ask for. -/
def report (w : World) (o : Options) (c : Config) (rs : List Result) : String :=
  let s := Settings.resolve o c w.environment
  Report.render s.format (s.color.usesColor w.terminal) w.time rs

/-- A report is printed, or written to the file that is named for it. -/
def delivery (fs : FileSystem) (output : Option String) (text : String) : Effect :=
  match output with
  | none => { output := text, files := fs }
  | some path =>
    match fs.writeText path.toList text with
    | .error fault => { failure := some (.report path fault), files := fs }
    | .ok files => { files }

theorem effect_deliver (w : World) (output : Option String) (text : String)
    (log : List Log.Record) :
    effect (deliver w output text log) = delivery w.files output text := by
  cases output with
  | none => rfl
  | some path =>
    simp only [deliver, delivery]
    cases w.files.writeText path.toList text <;> rfl

/-- Starting the workers leaves all that the rest of the analysis looks at. -/
theorem startWorkers_frame (w : World) (p : Parallel) :
    (startWorkers w p).1.files = w.files ∧ (startWorkers w p).1.terminal = w.terminal ∧
      (startWorkers w p).1.time = w.time := by
  unfold startWorkers
  split <;> exact ⟨rfl, rfl, rfl⟩

/-- The configuration decides first, then the selection, and the rest is the delivery of the
report. -/
theorem effect_analyze (w : World) (o : Options) :
    effect (analyze w o) =
      match (configuration w o).1 with
      | .error e => { failure := some (.configuration e), files := w.files }
      | .ok c =>
        match (Analysis.run w.files (Settings.resolve o c w.environment) o.paths).1 with
        | .error e => { failure := some (.selection e), files := w.files }
        | .ok rs => delivery w.files o.output (report w o c rs) := by
  rcases hc : configuration w o with ⟨found, log⟩
  cases found with
  | error e =>
    simp only [analyze, hc]
    rfl
  | ok c =>
    -- The workers are started in between, in a world that differs in nothing that is read later.
    rcases hs : startWorkers w (Settings.resolve o c w.environment).parallel with ⟨started, workers⟩
    obtain ⟨hfiles, hterminal, htime⟩ :=
      startWorkers_frame w (Settings.resolve o c w.environment).parallel
    simp only [hs] at hfiles hterminal htime
    rcases hr : Analysis.run w.files (Settings.resolve o c w.environment) o.paths with
      ⟨results, more⟩
    cases results with
    | error e =>
      simp only [analyze, hc, hs, hfiles, hr, effect]
    | ok rs =>
      simp only [analyze, hc, hs, hfiles, hterminal, htime, hr, effect_deliver]
      rfl

end SourceGauge.Proofs.CommandEffect
