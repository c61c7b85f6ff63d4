import SourceGauge.Capacity

namespace SourceGauge.Decimal

/-- Quotient rounded to nearest, a tie to the even neighbour. -/
def divEven (num den : Nat) : Nat :=
  let q := num / den
  let r := num % den
  if 2 * r < den || (2 * r == den && q % 2 == 0) then q else q + 1

/-- Significand and exponent of a finite double, sign dropped. -/
def decode (x : Float) : Nat × Int :=
  let bits : Nat := x.toBits.toNat
  let field : Nat := bits / capacity 52 % capacity 11
  let fraction : Nat := bits % capacity 52
  if field = 0 then (fraction, -1074) else (fraction + capacity 52, Int.ofNat field - 1075)

/-- Tenths of the value, rounded once. -/
def tenths (x : Float) : Nat :=
  let (significand, exponent) := decode x
  match exponent with
  | .ofNat n => 10 * significand * capacity n
  | .negSucc n => divEven (10 * significand) (capacity (n + 1))

/-- The value with one place after the point. -/
def fixed1 (x : Float) : String :=
  let t := tenths x
  toString (t / 10) ++ "." ++ toString (t % 10)

/-- The least value that rounds to infinity: half a unit past the greatest double. -/
def overflowBound : Nat := capacity 1024 - capacity 970

/-- Whether `digits * 10 ^ exponent` is too large for a double. Only at 309 places before the point
do the digits themselves decide. -/
def overflows (digits : Nat) (exponent : Int) : Bool :=
  let places : Int := Int.ofNat (Nat.toDigits 10 digits).length + exponent
  if digits = 0 || places < 309 then false
  else if 309 < places then true
  else match exponent with
    | .ofNat n => overflowBound ≤ digits * Nat.pow 10 n
    | .negSucc n => overflowBound * Nat.pow 10 (n + 1) ≤ digits

end SourceGauge.Decimal
