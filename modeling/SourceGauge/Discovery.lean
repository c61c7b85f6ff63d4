import SourceGauge.Config
import SourceGauge.FileSystem
import SourceGauge.Log

namespace SourceGauge.Config

/-- Reads a configuration file and logs that it did. -/
def load (fs : FileSystem) (path : List Char) : Except Error Config × List Log.Record :=
  let name := String.ofList path
  match fs.readText path with
  | .error e =>
    (.error (.config ("Failed to read " ++ name ++ ": " ++ e.message) (some name)), [])
  | .ok text =>
    match ofText? text.toList with
    | none => (.error (.config (unparsable name) (some name)), [])
    | some c => (.ok c, [Log.debug ("Loaded config from " ++ name)])

/-- How many directories are searched. -/
def searchDepth : Nat := 10

/-- The configuration files of a directory and those above it, the nearest first. -/
def candidates (fs : FileSystem) (start : List Char) : List (List Char) :=
  ((Path.ancestors searchDepth start).map (Path.join · fileName.toList)).filter fs.isFile

/-- The first configuration that can be loaded, or the default one. -/
def loadFirst (fs : FileSystem) : List (List Char) → Config × List Log.Record
  | [] =>
    ({}, [Log.debug ("No " ++ fileName ++ " found after checking " ++ toString searchDepth ++
      " directories. Using default config.")])
  | path :: paths =>
    match load fs path with
    | (.ok c, log) => (c, log)
    | (.error e, log) =>
      let (c, more) := loadFirst fs paths
      (c, log ++ Log.warn (e.message ++ ". Using defaults.") :: more)

/-- Searches a directory and those above it. -/
def discover (fs : FileSystem) (start : List Char) : Config × List Log.Record :=
  loadFirst fs (candidates fs start)

end SourceGauge.Config
