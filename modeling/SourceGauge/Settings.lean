import SourceGauge.Color
import SourceGauge.Config
import SourceGauge.Options

namespace SourceGauge

/-- What an analysis goes by: the command line over the configuration over the defaults. -/
structure Settings where
  extensions : List String
  ignore : List String
  format : Report.Format
  parallel : Parallel
  color : ColorMode
deriving DecidableEq, Repr

namespace Settings

def chooseExtensions (o : Options) (c : Config) : List String :=
  if o.allFiles then [] else if o.extensions.isEmpty then c.extensions else o.extensions

def chooseParallel (o : Options) (c : Config) : Parallel :=
  { c.parallelism with
    enabled := c.parallelism.enabled && !o.noParallel
    jobs := o.jobs.getD c.parallelism.jobs }

/-- A report that goes to a file has no colours. -/
def chooseColor (o : Options) (c : Config) (env : Environment) : ColorMode :=
  if o.plain || o.output.isSome then .never else (ColorMode.ofEnvironment env).prefer c.useColor

def resolve (o : Options) (c : Config) (env : Environment) : Settings where
  extensions := chooseExtensions o c
  ignore := c.ignorePatterns
  format := (o.format.or c.defaultFormat).getD .terminal
  parallel := chooseParallel o c
  color := chooseColor o c env

/-- The command line has the last word on leaving out colours. -/
theorem color_resolve {o : Options} (h : o.plain = true ∨ o.output.isSome = true) (c : Config)
    (env : Environment) : (resolve o c env).color = .never := by
  simp [resolve, chooseColor, h]

end Settings
end SourceGauge
