namespace SourceGauge

/-- The environment variables that are set. -/
abbrev Environment := String → Option String

end SourceGauge
