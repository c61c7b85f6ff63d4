namespace SourceGauge.Log

inductive Level where
  | error
  | warn
  | info
  | debug
  | trace
deriving DecidableEq, Repr

namespace Level

def label : Level → String
  | error => "ERROR"
  | warn => "WARN"
  | info => "INFO"
  | debug => "DEBUG"
  | trace => "TRACE"

/-- The least urgent level that is shown. -/
def ofVerbosity (quiet : Bool) (verbosity : Nat) : Level :=
  if quiet then error
  else match verbosity with
    | 0 => warn
    | 1 => info
    | 2 => debug
    | _ => trace

end Level

structure Record where
  level : Level
  message : String
deriving DecidableEq, Repr

def warn (message : String) : Record := ⟨.warn, message⟩

def info (message : String) : Record := ⟨.info, message⟩

def debug (message : String) : Record := ⟨.debug, message⟩

def Record.text (r : Record) : String := r.level.label ++ " " ++ r.message

end SourceGauge.Log
