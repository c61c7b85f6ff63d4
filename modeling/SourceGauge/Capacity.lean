namespace SourceGauge

/-- How many values fit into so many bits. -/
def capacity (bits : Nat) : Nat := Nat.pow 2 bits

end SourceGauge
