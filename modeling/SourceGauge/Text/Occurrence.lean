namespace SourceGauge.Text

/-- The characters around one match. -/
structure Site where
  before : Option Char
  after : Option Char
deriving DecidableEq, Repr

/-- One left-to-right pass for a non-empty word. After a match its remaining characters are
skipped, so no two matches overlap; `skip` counts those still to pass. -/
def sitesFrom (word : List Char) (before : Option Char) : Nat → List Char → List Site
  | _, [] => []
  | skip + 1, c :: rest => sitesFrom word (some c) skip rest
  | 0, c :: rest =>
    if word.isPrefixOf (c :: rest) then
      ⟨before, ((c :: rest).drop word.length).head?⟩ ::
        sitesFrom word (some c) (word.length - 1) rest
    else sitesFrom word (some c) 0 rest

/-- The non-overlapping matches of `word`; the empty word has none. -/
def sites (word text : List Char) : List Site :=
  if word.isEmpty then [] else sitesFrom word none 0 text

def countSubstring (text word : List Char) : Nat := (sites word text).length

/-- Offset of the first occurrence. The empty marker is found at once. -/
def offset? (marker : List Char) : List Char → Option Nat
  | [] => if marker.isEmpty then some 0 else none
  | c :: rest =>
    if marker.isPrefixOf (c :: rest) then some 0 else (offset? marker rest).map (· + 1)

end SourceGauge.Text
