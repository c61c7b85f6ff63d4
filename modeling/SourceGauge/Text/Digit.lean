namespace SourceGauge.Text

def hexValue? (c : Char) : Option Nat :=
  if c.isDigit then some (c.toNat - 48)
  else if 'a' ≤ c && c ≤ 'f' then some (c.toNat - 87)
  else if 'A' ≤ c && c ≤ 'F' then some (c.toNat - 55)
  else none

def digit? (base : Nat) (c : Char) : Option Nat := (hexValue? c).filter (· < base)

/-- The number that the digits write, if all of them are digits of the base. No digit gives zero. -/
def digitsValue? (base : Nat) (cs : List Char) : Option Nat :=
  cs.foldl (fun n? c => n?.bind fun n => (digit? base c).map (n * base + ·)) (some 0)

end SourceGauge.Text
