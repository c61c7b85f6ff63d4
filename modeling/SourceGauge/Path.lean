import SourceGauge.Text.Lines

namespace SourceGauge.Path

inductive Component where
  | root
  | current
  | parent
  | name (text : List Char)
deriving DecidableEq, Repr

/-- The root comes first, names come last. -/
def Component.rank : Component → Nat
  | root => 0
  | current => 1
  | parent => 2
  | name _ => 3

def Component.text : Component → List Char
  | root => ['/']
  | current => ['.']
  | parent => ['.', '.']
  | name text => text

/-- Lexicographic order by code points. -/
def textLe : List Char → List Char → Bool
  | [], _ => true
  | _ :: _, [] => false
  | a :: as, b :: bs => if a = b then textLe as bs else a < b

/-- Components are ordered by rank, names among themselves by code points. -/
def Component.le (a b : Component) : Bool :=
  a.rank < b.rank || (a.rank == b.rank && textLe a.text b.text)

def isAbsolute (path : List Char) : Bool := path.head? = some '/'

/-- A dot that stands alone or before a slash at the start of the path. -/
def hasLeadingDot : List Char → Bool
  | ['.'] => true
  | '.' :: '/' :: _ => true
  | _ => false

/-- What stands before the first piece: the root, a leading dot, or nothing. -/
def headLength (path : List Char) : Nat := if isAbsolute path || hasLeadingDot path then 1 else 0

/-- Repeated slashes and dots between slashes do not count. -/
def isNoise (piece : List Char) : Bool := piece.isEmpty || piece == ['.']

def pieces (path : List Char) : List (List Char) := Text.split '/' (path.drop (headLength path))

def component (piece : List Char) : Component := if piece = ['.', '.'] then .parent else .name piece

def headComponents (path : List Char) : List Component :=
  if isAbsolute path then [.root] else if hasLeadingDot path then [.current] else []

def components (path : List Char) : List Component :=
  headComponents path ++ ((pieces path).filter (!isNoise ·)).map component

/-- Lexicographic order of components, so that `a/b` comes before `a-b`. -/
def componentsLe : List Component → List Component → Bool
  | [], _ => true
  | _ :: _, [] => false
  | a :: as, b :: bs => if a = b then componentsLe as bs else a.le b

def le (p q : List Char) : Bool := componentsLe (components p) (components q)

/-- Two spellings are the same path when their components agree. -/
def same (p q : List Char) : Bool := components p = components q

/-- The pieces without the noise after the last real one. -/
def trimNoise (ps : List (List Char)) : List (List Char) := (ps.reverse.dropWhile isNoise).reverse

/-- The path without its last component, spelled as before. The root and the empty path have no
parent. -/
def parent? (path : List Char) : Option (List Char) :=
  let front := path.take (headLength path)
  let body := trimNoise (pieces path)
  if body.isEmpty then (if front = ['.'] then some [] else none)
  else some (front ++ Text.join '/' (trimNoise body.dropLast))

/-- The path and its nearest ancestors, at most `limit` paths in all. -/
def ancestors : Nat → List Char → List (List Char)
  | 0, _ => []
  | limit + 1, path =>
    path :: match parent? path with
      | none => []
      | some p => ancestors limit p

/-- An absolute path replaces the one it is joined to. -/
def join (base path : List Char) : List Char :=
  if isAbsolute path then path
  else if base.isEmpty || base.getLast? = some '/' then base ++ path
  else base ++ '/' :: path

/-- The last component, if it is a name. -/
def fileName? (path : List Char) : Option (List Char) :=
  match (components path).getLast? with
  | some (.name text) => some text
  | _ => none

/-- What follows the last dot of a file name. A dot in front does not count. -/
def nameExtension? (name : List Char) : Option (List Char) :=
  let ext := (name.reverse.takeWhile (· != '.')).reverse
  let stem := name.take (name.length - ext.length - 1)
  if ext.length = name.length || stem.isEmpty then none else some ext

def extension? (path : List Char) : Option (List Char) := (fileName? path).bind nameExtension?

end SourceGauge.Path
