import SourceGauge.Text.Blank
import SourceGauge.Text.Lines

namespace SourceGauge
open Text

/-- A line is a comment line when it opens with a marker after blanks. Lines inside a block comment
are code lines unless they open with a marker themselves. -/
def isCommentLine (line : List Char) : Bool :=
  let body := trimStart line
  ['/', '/'].isPrefixOf body || ['/', '*'].isPrefixOf body

structure LineCount where
  physical : Nat
  comment : Nat
deriving DecidableEq, Repr

namespace LineCount

/-- Every line that is no comment line, blank ones included. -/
def code (n : LineCount) : Nat := n.physical - n.comment

def ofText (text : List Char) : LineCount where
  physical := (lines text).length
  comment := (lines text).countP isCommentLine

end LineCount
end SourceGauge
