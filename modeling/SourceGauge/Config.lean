import SourceGauge.Capacity
import SourceGauge.Decimal
import SourceGauge.Error
import SourceGauge.Parallel
import SourceGauge.Report
import SourceGauge.Toml.Document

namespace SourceGauge

namespace Config

structure Selection where
  /-- An empty list selects every file. -/
  extensions : Option (List String) := none
  ignore : List String := []
deriving DecidableEq, Repr

structure Output where
  defaultFormat : Option Report.Format := none
  useColor : Option Bool := none
deriving DecidableEq, Repr

end Config

/-- Every section and every field of the configuration file may be left out. -/
structure Config where
  selection : Option Config.Selection := none
  output : Option Config.Output := none
  parallel : Option Parallel := none
deriving DecidableEq, Repr

namespace Config

open Toml (Value)

def defaultExtensions : List String := ["js", "jsx", "ts", "tsx"]

def extensions (c : Config) : List String :=
  (c.selection.bind (·.extensions)).getD defaultExtensions

def ignorePatterns (c : Config) : List String := (c.selection.map (·.ignore)).getD []

def defaultFormat (c : Config) : Option Report.Format := c.output.bind (·.defaultFormat)

def useColor (c : Config) : Option Bool := c.output.bind (·.useColor)

def parallelism (c : Config) : Parallel := c.parallel.getD {}

/-- A signed or an unsigned number of 128 bits. -/
def isReadableNumber (n : Int) : Bool :=
  -Int.ofNat (capacity 127) ≤ n && n < Int.ofNat (capacity 128)

/-- Whether every number in a value has a machine representation. A field that is not known is
ignored only if its value can be read. -/
def isReadable : Value → Bool
  | .integer n => isReadableNumber n
  | .float _ (.finite digits exponent) => !Decimal.overflows digits exponent
  | .array _ items => areReadable items
  | .table _ entries => areReadableEntries entries
  | _ => true
where
  areReadable : List Value → Bool
    | [] => true
    | v :: rest => isReadable v && areReadable rest
  areReadableEntries : List (String × Value) → Bool
    | [] => true
    | (_, v) :: rest => isReadable v && areReadableEntries rest

def field? (name : String) (entries : Toml.Entries) : Option Value :=
  (entries.find? (·.1 = name)).map (·.2)

/-- The values of the named fields. A section is a table, or an array of the first few fields in
order, whose further items nobody looks at. A date in its place names no field. -/
def fields? (names : List String) : Value → Option (List (Option Value))
  | .table _ entries =>
    if entries.all fun (name, v) => names.contains name || isReadable v then
      some (names.map (field? · entries))
    else none
  | .array _ items => some ((List.range names.length).map (items[·]?))
  | .datetime _ => some (names.map fun _ => none)
  | _ => none

/-- A field that is missing takes its default. -/
def optional (default : α) (read : Value → Option α) : Option Value → Option α
  | none => some default
  | some v => read v

def string? : Value → Option String
  | .string s => some s
  | _ => none

def strings? : Value → Option (List String)
  | .array _ items => items.mapM string?
  | _ => none

def boolean? : Value → Option Bool
  | .boolean b => some b
  | _ => none

/-- A count fits into 64 bits. -/
def count? : Value → Option Nat
  | .integer n => if 0 ≤ n && n < Int.ofNat (capacity 64) then some n.toNat else none
  | _ => none

/-- A format is its name, or a table with its name over nothing. -/
def format? : Value → Option Report.Format
  | .string s => Report.Format.parse? s
  | .table _ [(name, .table _ [])] => Report.Format.parse? name
  | .table _ [(name, .array _ [])] => Report.Format.parse? name
  | _ => none

def selection? (v : Value) : Option Selection := do
  match ← fields? ["extensions", "ignore"] v with
  | [extensions, ignore] =>
    some ⟨← optional none (fun v => (strings? v).map some) extensions,
      ← optional [] strings? ignore⟩
  | _ => none

def output? (v : Value) : Option Output := do
  match ← fields? ["default_format", "use_color"] v with
  | [format, color] =>
    some ⟨← optional none (fun v => (format? v).map some) format,
      ← optional none (fun v => (boolean? v).map some) color⟩
  | _ => none

def parallel? (v : Value) : Option Parallel := do
  match ← fields? ["enabled", "jobs", "batch_size"] v with
  | [enabled, jobs, size] =>
    some ⟨← optional true boolean? enabled, ← optional 0 count? jobs,
      ← optional (some 100) (fun v => (count? v).map some) size⟩
  | _ => none

def ofEntries? (entries : Toml.Entries) : Option Config := do
  match ← fields? ["selection", "output", "parallel"] (.table .header entries) with
  | [selection, output, parallel] =>
    some ⟨← optional none (fun v => (selection? v).map some) selection,
      ← optional none (fun v => (output? v).map some) output,
      ← optional none (fun v => (parallel? v).map some) parallel⟩
  | _ => none

def ofText? (cs : List Char) : Option Config := (Toml.parse? cs).bind ofEntries?

def fileName : String := ".codemetrics.toml"

def unparsable (name : String) : String := "Failed to parse " ++ name ++ ": TOML parse error"

/-- Reads a configuration that comes from no particular file. -/
def parse (text : String) : Except Error Config :=
  match ofText? text.toList with
  | some c => .ok c
  | none => .error (.config (unparsable fileName) none)

/-- What a new configuration file holds. -/
def template : String :=
  "# codemetrics configuration\n" ++
  "\n" ++
  "[selection]\n" ++
  "extensions = [\"js\", \"jsx\", \"ts\", \"tsx\"]\n" ++
  "ignore = [\n" ++
  "    \"**/node_modules/**\",\n" ++
  "    \"**/dist/**\",\n" ++
  "    \"**/*.min.js\",\n" ++
  "]\n" ++
  "\n" ++
  "[output]\n" ++
  "default_format = \"terminal\"\n" ++
  "\n" ++
  "[parallel]\n" ++
  "enabled = true\n" ++
  "jobs = 0\n"

end Config
end SourceGauge
