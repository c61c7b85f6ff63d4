import SourceGauge.Clock
import SourceGauge.Host
import Std.Time

namespace SourceGauge

def usage : String :=
  "Heuristic complexity, maintainability and issue metrics for source files\n\n" ++
  "Usage: codemetrics analyze [OPTIONS] [PATH]...\n" ++
  "       codemetrics init [--force]\n\n" ++
  "Options of analyze:\n" ++
  "  -f, --format <FORMAT>  terminal, json or markdown\n" ++
  "  -o, --output <FILE>    Write the report to a file\n" ++
  "      --ext <EXT>        Extensions to select, separated by commas\n" ++
  "      --all-files        Select every file\n" ++
  "  -j, --jobs <N>         Worker threads, 0 for one per core\n" ++
  "      --no-parallel      Analyze files one at a time\n" ++
  "      --plain            No colors\n" ++
  "      --config <FILE>    Use this configuration file\n" ++
  "  -v, --verbose          Log more\n" ++
  "  -q, --quiet            Log errors only\n"

def CommandLine.Refusal.text : CommandLine.Refusal → String
  | .help => usage
  | .version => CommandLine.versionText
  | .missingCommand => usage
  | .unknownArgument => "error: unexpected argument\n"
  | .unknownCommand => "error: unrecognized subcommand\n"
  | .invalidValue => "error: invalid or missing value\n"
  | .malformedNumber => "error: invalid number\n"
  | .conflict => "error: arguments cannot be used together\n"
  | .unexpectedValue => "error: unexpected value for a flag\n"

def Log.Level.rank : Log.Level → Nat
  | .error => 0
  | .warn => 1
  | .info => 2
  | .debug => 3
  | .trace => 4

/-- Logs the records that are urgent enough. -/
def logRecords (level : Log.Level) (records : List Log.Record) : IO Unit :=
  for r in records do
    if r.level.rank ≤ level.rank then IO.eprintln ("[" ++ r.level.label ++ "] " ++ r.message)

def environmentNames : List String :=
  ["NO_COLOR", "CLICOLOR", "CLICOLOR_FORCE", "CODEMETRICS_QUIET"]

def readEnvironment : IO Environment := do
  let values ← environmentNames.mapM fun name => return (name, ← IO.getEnv name)
  return fun name => (values.find? (·.1 = name)).bind (·.2)

def level : CommandLine.Invocation → Log.Level
  | .analyze o => .ofVerbosity o.quiet o.verbosity
  | .init _ => .ofVerbosity false 0

def filesFor (environment : Environment) : CommandLine.Invocation → IO FileSystem
  | .analyze o => do Host.forAnalysis (← Host.start) environment o
  | .init _ => Host.start

def perform (invocation : CommandLine.Invocation) : IO UInt32 := do
  let environment ← readEnvironment
  let files ← filesFor environment invocation
  let stdout ← IO.getStdout
  let seconds := (← Std.Time.Timestamp.now).toSecondsSinceUnixEpoch.toInt.toNat
  let world : World := ⟨files, environment, ← stdout.isTty, false, Clock.text seconds⟩
  let outcome := Command.run world invocation
  logRecords (level invocation) outcome.log
  Host.writeBack files outcome.world.files
  stdout.putStr outcome.output
  stdout.flush
  if let some failure := outcome.failure then IO.eprintln ("Error: " ++ failure.message)
  return outcome.exitCode.toUInt32

end SourceGauge

def main (args : List String) : IO UInt32 := do
  match SourceGauge.CommandLine.parse args with
  | .ok invocation => SourceGauge.perform invocation
  | .error refusal =>
    let out ← if refusal.exitCode = 0 then IO.getStdout else IO.getStderr
    out.putStr refusal.text
    return refusal.exitCode.toUInt32
