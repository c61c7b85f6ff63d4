import SourceGauge.Analysis
import SourceGauge.CommandLine
import SourceGauge.Discovery

namespace SourceGauge

/-- What a command can see and change. -/
structure World where
  files : FileSystem
  environment : Environment
  /-- Whether the output goes to a terminal. -/
  terminal : Bool := false
  /-- Whether the workers of a parallel batch are running already. -/
  workersRunning : Bool := false
  /-- The time that a report shows. -/
  time : String

namespace Command

inductive Failure where
  | configuration (e : Error)
  | selection (e : Error)
  | report (path : String) (fault : FileSystem.Fault)
  | template (path : String) (fault : FileSystem.Fault)
  | workingDirectory (fault : FileSystem.Fault)
  | alreadyConfigured
deriving DecidableEq, Repr

def Failure.message : Failure → String
  | configuration e => e.message
  | selection e => "Failed to select files: " ++ e.message
  | report path fault => "Failed to write report to " ++ path ++ ": " ++ fault.message
  | template path fault => "Failed to write " ++ path ++ ": " ++ fault.message
  | workingDirectory fault => "Failed to get current directory: " ++ fault.message
  | alreadyConfigured => "Configuration file already exists. Use --force to overwrite."

/-- The world after a command, what it printed and logged, and why it failed if it did. -/
structure Outcome where
  world : World
  output : String := ""
  log : List Log.Record := []
  failure : Option Failure := none

def Outcome.exitCode (o : Outcome) : Nat := if o.failure.isSome then 1 else 0

/-- The configuration found from the working directory. -/
def foundConfiguration (fs : FileSystem) : Config × List Log.Record :=
  match fs.currentDirectory with
  | .ok dir => Config.discover fs dir
  | .error fault =>
    ({}, [Log.warn ("Failed to get current directory: " ++ fault.message ++
      ". Using default config.")])

/-- The configuration that was named, or else the one that is found. -/
def configuration (w : World) (o : Options) : Except Error Config × List Log.Record :=
  match o.config with
  | some path => Config.load w.files path.toList
  | none =>
    let (c, log) := foundConfiguration w.files
    (.ok c, log)

/-- A parallel batch starts its workers once. -/
def startWorkers (w : World) (p : Parallel) : World × List Log.Record :=
  if !p.enabled then (w, [])
  else ({ w with workersRunning := true },
    if w.workersRunning then
      [Log.debug ("Thread pool already configured: " ++
        "The global thread pool has already been initialized.")]
    else [])

/-- Puts the report where it is asked for. -/
def deliver (w : World) (output : Option String) (report : String) (log : List Log.Record) :
    Outcome :=
  match output with
  | none => { world := w, output := report, log }
  | some path =>
    match w.files.writeText path.toList report with
    | .error fault => { world := w, log, failure := some (.report path fault) }
    | .ok files =>
      { world := { w with files }, log := log ++ [Log.info ("Report written to " ++ path)] }

def analyze (w : World) (o : Options) : Outcome :=
  match configuration w o with
  | (.error e, log) => { world := w, log, failure := some (.configuration e) }
  | (.ok c, log) =>
    let s := Settings.resolve o c w.environment
    let (w, workers) := startWorkers w s.parallel
    match Analysis.run w.files s o.paths with
    | (.error e, more) =>
      { world := w, log := log ++ workers ++ more, failure := some (.selection e) }
    | (.ok rs, more) =>
      let report := Report.render s.format (s.color.usesColor w.terminal) w.time rs
      deliver w o.output report (log ++ workers ++ more)

/-- Writes the template into a directory and gives its path. A file that is there is replaced only
by force. -/
def initIn (fs : FileSystem) (dir : List Char) (force : Bool) :
    FileSystem × Except Failure (List Char) :=
  let path := Path.join dir Config.fileName.toList
  if fs.contains path && !force then (fs, .error .alreadyConfigured)
  else match fs.writeText path Config.template with
    | .error fault => (fs, .error (.template (String.ofList path) fault))
    | .ok files => (files, .ok path)

def wrote (path : List Char) : Log.Record := Log.info ("Wrote " ++ String.ofList path)

def init (w : World) (force : Bool) : Outcome :=
  match w.files.currentDirectory with
  | .error fault => { world := w, failure := some (.workingDirectory fault) }
  | .ok dir =>
    let (files, done) := initIn w.files dir force
    match done with
    | .error e => { world := { w with files }, failure := some e }
    | .ok path =>
      { world := { w with files }
        output := "Created " ++ Config.fileName ++ " configuration file\n"
        log := [wrote path] }

def run (w : World) : CommandLine.Invocation → Outcome
  | .analyze o => analyze w o
  | .init force => init w force

end Command
end SourceGauge
