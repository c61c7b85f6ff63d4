import SourceGauge.Capacity
import SourceGauge.Text.Alphanumeric
import SourceGauge.Text.Occurrence

namespace SourceGauge.Complexity
open Text

/-- The characters that glue a keyword to its neighbour. -/
def isIdentifierChar (c : Char) : Bool := isAlphanumeric c || c == '_' || c == '$'

def keywords : List (List Char) := [
    ['i', 'f'], ['e', 'l', 's', 'e'], ['f', 'o', 'r'], ['w', 'h', 'i', 'l', 'e'], ['d', 'o'],
    ['s', 'w', 'i', 't', 'c', 'h'], ['c', 'a', 's', 'e'], ['c', 'a', 't', 'c', 'h']]

/-- Each operator is counted on its own, so `??` scores three: two for `?` and one for `??`. -/
def operators : List (List Char) := [['&', '&'], ['|', '|'], ['?'], ['?', '?']]

/-- A match that no identifier character touches. -/
def standsAlone (s : Site) : Bool := !s.before.any isIdentifierChar && !s.after.any isIdentifierChar

/-- Matches that stand alone. A glued match is not counted, but its characters are passed over. -/
def countWholeWord (text word : List Char) : Nat := (sites word text).countP standsAlone

/-- The greatest complexity that is reported. -/
def ceiling : Nat := capacity 32 - 1

/-- The straight path and the branches, capped at `ceiling`. -/
def ofBranches (branches : Nat) : Nat := min (branches + 1) ceiling

/-- The counts of all words together. -/
def total (count : List Char → Nat) : List (List Char) → Nat
  | [] => 0
  | word :: words => count word + total count words

/-- Only characters are looked at, so strings and comments count like code. -/
def branches (text : List Char) : Nat :=
  total (countWholeWord text) keywords + total (countSubstring text) operators

def ofText (text : List Char) : Nat := ofBranches (branches text)

end SourceGauge.Complexity
