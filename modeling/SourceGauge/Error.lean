namespace SourceGauge

/-- Why an operation at the edge failed. The measures themselves never fail. -/
inductive Error where
  /-- Content could not be read. -/
  | acquisition (identifier reason : String)
  /-- A configuration could not be read or makes no sense. -/
  | config (reason : String) (path : Option String)
  | io (reason : String)
  /-- A selection pattern is malformed. -/
  | pattern (reason : String)
  /-- An ignore file above a root is malformed. -/
  | rules (reason : String)
deriving DecidableEq, Repr

namespace Error

def message : Error → String
  | acquisition _ reason => reason
  | config reason _ => "Configuration error: " ++ reason
  | io reason => reason
  | pattern reason => reason
  | rules reason => reason

def isAcquisition : Error → Bool
  | acquisition _ _ => true
  | _ => false

end Error
end SourceGauge
