import Mathlib
import SourceGauge.Proofs.WrittenFiles

namespace SourceGauge.Proofs.WrittenReport
open Command CommandEffect WrittenFiles

/-- The same analysis with its report printed, without colours. -/
def printed (o : Options) : Options := { o with output := none, plain := true }

/-- A report for a file is set like a plain one, whatever the environment says about colours. -/
theorem resolve_printed {o : Options} {path : String} (hpath : o.output = some path) (c : Config)
    (env other : Environment) :
    Settings.resolve (printed o) c env = Settings.resolve o c other := by
  simp [Settings.resolve, Settings.chooseExtensions, Settings.chooseParallel, Settings.chooseColor,
    printed, hpath]

/-- Without colours a report does not depend on where it goes. -/
theorem report_printed {o : Options} {path : String} (hpath : o.output = some path)
    {w other : World} (htime : other.time = w.time) (c : Config) (rs : List Result) :
    report other (printed o) c rs = report w o c rs := by
  rw [report, report, resolve_printed hpath c other.environment w.environment, htime,
    Settings.color_resolve (.inr (by simp [hpath]))]
  rfl

/-- What a successful analysis with a file for its report has gone through. -/
theorem effect_eq_written {w : World} {o : Options} {path : String} (hpath : o.output = some path)
    (hok : (effect (analyze w o)).failure = none) :
    ∃ c rs files, (configuration w o).1 = .ok c ∧
      (Analysis.run w.files (Settings.resolve o c w.environment) o.paths).1 = .ok rs ∧
      w.files.writeText path.toList (report w o c rs) = .ok files ∧
      effect (analyze w o) = { files } := by
  rw [effect_analyze, hpath] at hok ⊢
  cases hc : (configuration w o).1 with
  | error e => simp [hc] at hok
  | ok c =>
    cases hr : (Analysis.run w.files (Settings.resolve o c w.environment) o.paths).1 with
    | error e => simp [hc, hr] at hok
    | ok rs =>
      cases hw : w.files.writeText path.toList (report w o c rs) with
      | error fault => simp [hc, hr, delivery, hw] at hok
      | ok files => exact ⟨c, rs, files, rfl, hr, hw, by simp [hr, delivery, hw]⟩

/-- The printing run goes through the same steps and ends with the same text. -/
theorem effect_printed {w other : World} {o : Options} {path : String} {c : Config}
    {rs : List Result} (hpath : o.output = some path) (hfiles : other.files = w.files)
    (htime : other.time = w.time) (hc : (configuration w o).1 = .ok c)
    (hr : (Analysis.run w.files (Settings.resolve o c w.environment) o.paths).1 = .ok rs) :
    effect (analyze other (printed o)) = { output := report w o c rs, files := w.files } := by
  have hconfiguration : configuration other (printed o) = configuration w o := by
    simp [configuration, printed, hfiles]
  have hresolve := resolve_printed hpath c other.environment w.environment
  have hpaths : (printed o).paths = o.paths := rfl
  have hreport := report_printed hpath htime c rs
  simp only [effect_analyze, hconfiguration, hc, hfiles, hresolve, hpaths, hr, hreport]
  rfl

/-- If an analysis with a file for its report succeeds, it prints nothing, and under the path of the
file stands what the same analysis prints when it is asked for a plain report on the screen. The
printing run may have other colour settings in its environment and go to a terminal or not. It
changes no file. -/
theorem written_eq_printed (w : World) (o : Options) (path : String) (hpath : o.output = some path)
    (hok : (analyze w o).failure = none) (environment : Environment)
    (terminal workersRunning : Bool) :
    let printing := analyze { w with environment, terminal, workersRunning }
      { o with output := none, plain := true }
    (analyze w o).world.files.readBytes path.toList = .ok printing.output.toUTF8 ∧
    (analyze w o).output = "" ∧
    printing.failure = none ∧ printing.world.files = w.files := by
  intro printing
  obtain ⟨c, rs, files, hc, hr, hw, hwritten⟩ := effect_eq_written hpath hok
  have hprinted : effect printing = { output := report w o c rs, files := w.files } :=
    effect_printed hpath rfl rfl hc hr
  have hfiles : (analyze w o).world.files = files := congrArg Effect.files hwritten
  have houtput : printing.output = report w o c rs := congrArg Effect.output hprinted
  refine ⟨?_, congrArg Effect.output hwritten, congrArg Effect.failure hprinted,
    congrArg Effect.files hprinted⟩
  rw [hfiles, houtput]
  exact readBytes_writeText hw

/-- One file, in an environment that asks for colours. -/
def colorful : World where
  files := { entries := [(["a.js".toList], .file "if (x) y()\n".toUTF8)] }
  environment := fun name => if name = "CLICOLOR_FORCE" then some "1" else none
  terminal := true
  time := ""

/-- The report takes the place of the only file that it is about. -/
theorem written_eq_printed_over_source :
    let o : Options := { output := some "a.js" }
    (Selection.select colorful.files Config.defaultExtensions [] [".".toList]).1 =
      .ok ["./a.js".toList] ∧
    (analyze colorful o).failure = none ∧
    (analyze colorful o).world.files.readBytes "a.js".toList =
      .ok (analyze colorful { plain := true }).output.toUTF8 ∧
    (analyze colorful o).output = "" := by
  intro o
  have hselect : (Selection.select colorful.files Config.defaultExtensions [] [".".toList]).1 =
      .ok ["./a.js".toList] := by cbv
  have hok : (analyze colorful o).failure = none := by decide +kernel
  obtain ⟨hread, hquiet, _⟩ :=
    written_eq_printed colorful o "a.js" rfl hok colorful.environment true false
  exact ⟨hselect, hok, hread, hquiet⟩

end SourceGauge.Proofs.WrittenReport
