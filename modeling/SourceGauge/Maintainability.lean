import SourceGauge.Complexity
import SourceGauge.LineCount

namespace SourceGauge

namespace Maintainability

/-- Points lost per code line. -/
def codeLinePenalty : Float := 0.5

/-- Points lost per unit of complexity. -/
def complexityPenalty : Float := 2

/-- What is left of a hundred points, in doubles. -/
def raw (codeLines complexity : Nat) : Float :=
  100 - Float.ofNat codeLines * codeLinePenalty - Float.ofNat complexity * complexityPenalty

def clamp (x : Float) : Float := if x < 0 then 0 else if 100 < x then 100 else x

/-- Cuts off the fraction of a number that is not negative. From `2 ^ 52` on there is none. -/
def cut (x : Float) : Float := if x < 4503599627370496 then x.toUInt64.toFloat else x

def floor (x : Float) : Float :=
  if x < 0 then
    let above := -cut (-x)
    if x < above then above - 1 else above
  else cut x

def roundHalfUp (x : Float) : Float := floor (x + 0.5)

/-- The points are clamped first and rounded then. -/
def score (codeLines complexity : Nat) : Nat :=
  (roundHalfUp (clamp (raw codeLines complexity))).toUInt8.toNat

def ofText (text : List Char) : Nat := score (LineCount.ofText text).code (Complexity.ofText text)

end Maintainability

inductive Rating where
  | good
  | fair
  | poor
deriving DecidableEq, Repr

namespace Rating

def ofScore (score : Nat) : Rating :=
  if 70 ≤ score then good else if 50 ≤ score then fair else poor

def label : Rating → String
  | good => "good"
  | fair => "fair"
  | poor => "poor"

end Rating
end SourceGauge
