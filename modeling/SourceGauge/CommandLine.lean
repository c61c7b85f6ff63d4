import SourceGauge.Capacity
import SourceGauge.Options
import SourceGauge.Text.Digit
import SourceGauge.Text.Lines

namespace SourceGauge.CommandLine

/-- What the program is asked to do. -/
inductive Invocation where
  | analyze (options : Options)
  | init (force : Bool)
deriving DecidableEq, Repr

/-- Why the words ask for nothing that can be done. Help and version are answers, too. -/
inductive Refusal where
  | help
  | version
  | missingCommand
  | unknownArgument
  | unknownCommand
  /-- A value is missing, empty or not among those that are allowed. -/
  | invalidValue
  | malformedNumber
  | conflict
  /-- A switch was given a value. -/
  | unexpectedValue
deriving DecidableEq, Repr

namespace Refusal

def exitCode : Refusal → Nat
  | help => 0
  | version => 0
  | _ => 2

end Refusal

def versionText : String := "codemetrics 0.1.0\n"

/-- Options that take a value. -/
inductive Setting where
  | format
  | output
  | ext
  | jobs
  | config
deriving DecidableEq, Repr

inductive Switch where
  | allFiles
  | noParallel
  | plain
  | verbose
  | quiet
  | help
deriving DecidableEq, Repr

inductive Name where
  | setting (s : Setting)
  | switch (s : Switch)
deriving DecidableEq, Repr

namespace Name

def all : List Name := [.setting .format, .setting .output, .setting .ext, .setting .jobs,
  .setting .config, .switch .allFiles, .switch .noParallel, .switch .plain, .switch .verbose,
  .switch .quiet, .switch .help]

def long : Name → String
  | setting .format => "format"
  | setting .output => "output"
  | setting .ext => "ext"
  | setting .jobs => "jobs"
  | setting .config => "config"
  | switch .allFiles => "all-files"
  | switch .noParallel => "no-parallel"
  | switch .plain => "plain"
  | switch .verbose => "verbose"
  | switch .quiet => "quiet"
  | switch .help => "help"

def short? : Name → Option Char
  | setting .format => some 'f'
  | setting .output => some 'o'
  | setting .jobs => some 'j'
  | switch .verbose => some 'v'
  | switch .quiet => some 'q'
  | switch .help => some 'h'
  | _ => none

def ofLong? (word : List Char) : Option Name := all.find? (·.long.toList = word)

def ofShort? (c : Char) : Option Name := all.find? (·.short? = some c)

end Name

/-- Decimal digits, perhaps after a plus sign, of a number of 64 bits. -/
def count? (text : List Char) : Option Nat :=
  let digits := if text.head? = some '+' then text.tail else text
  if digits.isEmpty then none else (Text.digitsValue? 10 digits).filter (· < capacity 64)

def nonempty (value : String) : Except Refusal String :=
  if value.isEmpty then .error .invalidValue else .ok value

def setValue (o : Options) (s : Setting) (value : String) : Except Refusal Options :=
  match s with
  | .format =>
    match Report.Format.parse? value with
    | some f => .ok { o with format := some f }
    | none => .error .invalidValue
  | .output => (nonempty value).map fun v => { o with output := some v }
  | .ext =>
    .ok { o with extensions := o.extensions ++ (Text.split ',' value.toList).map String.ofList }
  | .jobs =>
    match count? value.toList with
    | some n => .ok { o with jobs := some n }
    | none => .error .malformedNumber
  | .config => (nonempty value).map fun v => { o with config := some v }

def setSwitch (o : Options) : Switch → Except Refusal Options
  | .allFiles => .ok { o with allFiles := true }
  | .noParallel => .ok { o with noParallel := true }
  | .plain => .ok { o with plain := true }
  | .verbose => .ok { o with verbosity := min 255 (o.verbosity + 1) }
  | .quiet => .ok { o with quiet := true }
  | .help => .error .help

/-- Extensions add up and verbosity counts. Everything else is given once. -/
def isRepeatable : Name → Bool
  | .setting .ext => true
  | .switch .verbose => true
  | _ => false

/-- What was read and still has to be checked. A value is checked only when the next word that is
understood, or the end, shows that it is complete, so a word that is not understood is reported
first. -/
inductive Pending where
  | nothing
  /-- The next word is its value. -/
  | awaiting (s : Setting)
  | holding (s : Setting) (value : String)
  /-- Neighbouring paths are checked together. -/
  | paths (ps : List String)
deriving DecidableEq, Repr

structure Reading where
  options : Options := { paths := [] }
  given : List Name := []
  pending : Pending := .nothing
deriving DecidableEq, Repr

namespace Reading

def once (r : Reading) (n : Name) : Except Refusal Reading :=
  if r.given.contains n && !isRepeatable n then .error .conflict
  else .ok { r with given := n :: r.given }

def give (r : Reading) (s : Setting) (value : String) : Except Refusal Reading := do
  let r ← r.once (.setting s)
  return { r with options := ← setValue r.options s value }

def addPaths (r : Reading) (ps : List String) : Except Refusal Reading :=
  if ps.any String.isEmpty then .error .invalidValue
  else .ok { r with options := { r.options with paths := r.options.paths ++ ps } }

/-- Checks what is pending. -/
def settle (r : Reading) : Except Refusal Reading :=
  let free := { r with pending := .nothing }
  match r.pending with
  | .nothing => .ok free
  | .awaiting _ => .error .invalidValue
  | .holding s value => free.give s value
  | .paths ps => free.addPaths ps

def flip (r : Reading) (s : Switch) : Except Refusal Reading := do
  let r ← (← r.settle).once (.switch s)
  return { r with options := ← setSwitch r.options s }

/-- A value that stands in the same word as its option is checked at once. -/
def attach (r : Reading) (s : Setting) (value : List Char) : Except Refusal Reading := do
  (← r.settle).give s (String.ofList value)

def await (r : Reading) (s : Setting) : Except Refusal Reading := do
  return { ← r.settle with pending := .awaiting s }

def path (r : Reading) (p : String) : Except Refusal Reading :=
  match r.pending with
  | .paths ps => .ok { r with pending := .paths (ps ++ [p]) }
  | _ => r.settle.map fun r => { r with pending := .paths [p] }

/-- A word after two dashes: a name, or a name, an equals sign and a value. -/
def long (r : Reading) (body : List Char) : Except Refusal Reading :=
  let value? := (body.dropWhile (· != '=')).tail?
  match Name.ofLong? (body.takeWhile (· != '=')), value? with
  | some (.setting s), some value => r.attach s value
  | some (.setting s), none => r.await s
  | some (.switch _), some _ => .error .unexpectedValue
  | some (.switch s), none => r.flip s
  | none, _ => .error .unknownArgument

/-- Letters after one dash. A letter that takes a value takes the rest of the word, or else the
next word. -/
def short (r : Reading) : List Char → Except Refusal Reading
  | [] => .ok r
  | c :: rest =>
    match Name.ofShort? c with
    | some (.switch s) => do short (← r.flip s) rest
    | some (.setting s) =>
      if rest.isEmpty then r.await s
      else r.attach s (if rest.head? = some '=' then rest.tail else rest)
    | none => .error .unknownArgument

/-- A lone dash is an ordinary word. -/
def word (r : Reading) (w : String) : Except Refusal Reading :=
  match w.toList, r.pending with
  | '-' :: '-' :: body, _ => r.long body
  | '-' :: c :: rest, _ => r.short (c :: rest)
  | _, .awaiting s => .ok { r with pending := .holding s w }
  | _, _ => r.path w

/-- After two dashes alone every word is a path. -/
def words (r : Reading) : List String → Except Refusal Reading
  | [] => .ok r
  | "--" :: rest => rest.foldlM path r
  | w :: rest => do words (← r.word w) rest

/-- The options once all words are read. Only now can two of them contradict each other. -/
def finish (r : Reading) : Except Refusal Options := do
  let o := (← r.settle).options
  if o.allFiles && !o.extensions.isEmpty then throw .conflict
  return if o.paths.isEmpty then { o with paths := ["."] } else o

end Reading

def parseAnalyze (args : List String) : Except Refusal Options := do
  (← Reading.words {} args).finish

def forceOnce (force : Bool) : Except Refusal Bool := if force then .error .conflict else .ok true

def parseInitLetters (force : Bool) : List Char → Except Refusal Bool
  | [] => .ok force
  | 'f' :: rest => do parseInitLetters (← forceOnce force) rest
  | 'h' :: _ => .error .help
  | _ => .error .unknownArgument

def parseInitLong (force : Bool) (body : List Char) : Except Refusal Bool :=
  let name := String.ofList (body.takeWhile (· != '='))
  if name != "force" && name != "help" then .error .unknownArgument
  else if body.contains '=' then .error .unexpectedValue
  else if name = "help" then .error .help
  else forceOnce force

/-- Nothing but switches may follow. -/
def parseInit (force : Bool) : List String → Except Refusal Bool
  | [] => .ok force
  | ["--"] => .ok force
  | w :: rest => do
    match w.toList with
    | ['-', '-'] => throw .unknownArgument
    | '-' :: '-' :: body => parseInit (← parseInitLong force body) rest
    | '-' :: c :: letters => parseInit (← parseInitLetters force (c :: letters)) rest
    | _ => throw .unknownArgument

def isCommand (w : String) : Bool := w == "analyze" || w == "init" || w == "help"

/-- A first word that begins with a dash. -/
def parseFront (w : List Char) : Refusal :=
  match w with
  | '-' :: '-' :: body =>
    let name := String.ofList (body.takeWhile (· != '='))
    if name != "help" && name != "version" then .unknownArgument
    else if body.contains '=' then .unexpectedValue
    else if name = "help" then .help
    else .version
  | '-' :: 'h' :: _ => .help
  | '-' :: 'V' :: _ => .version
  | '-' :: _ :: _ => .unknownArgument
  | _ => .unknownCommand

def parseHelp : List String → Refusal
  | [] => .help
  | [w] => if isCommand w then .help else .unknownCommand
  | _ => .unknownCommand

/-- The words after the program's own name. -/
def parse : List String → Except Refusal Invocation
  | [] => .error .missingCommand
  | ["--"] => .error .missingCommand
  | "--" :: w :: _ => .error (if isCommand w then .unknownArgument else .unknownCommand)
  | "analyze" :: rest => (parseAnalyze rest).map .analyze
  | "init" :: rest => (parseInit false rest).map .init
  | "help" :: rest => .error (parseHelp rest)
  | w :: _ => .error (parseFront w.toList)

end SourceGauge.CommandLine
