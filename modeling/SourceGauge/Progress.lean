import SourceGauge.Environment

namespace SourceGauge

/-- Whether progress is drawn while a batch runs. -/
structure Progress where
  quiet : Bool
  verbosity : Nat
deriving DecidableEq, Repr

namespace Progress

/-- The variable `CODEMETRICS_QUIET` silences progress whatever its value is. -/
def ofEnvironment (env : Environment) (quiet : Bool) (verbosity : Nat) : Progress :=
  ⟨quiet || (env "CODEMETRICS_QUIET").isSome, verbosity⟩

/-- Progress is drawn on a terminal only. -/
def isShown (p : Progress) (terminal : Bool) : Bool := !p.quiet && terminal

end Progress
end SourceGauge
