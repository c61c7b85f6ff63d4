import SourceGauge.Ignore.Wildcard
import SourceGauge.Text.Blank
import SourceGauge.Text.Lines

namespace SourceGauge.Ignore

inductive Verdict where
  | ignored
  | kept
deriving DecidableEq, Repr

structure Rule where
  verdict : Verdict
  directoriesOnly : Bool
  tokens : List Token

/-- Blanks at the end do not count, unless the last one is escaped. -/
def trimLine (cs : List Char) : List Char :=
  if ['\\', ' '].isSuffixOf cs then cs else Text.trimEnd cs

/-- A slash at the end asks for a directory. It is no part of the wildcard, nor is a backslash that
escapes it. -/
def splitDirectory (cs : List Char) : List Char × Bool :=
  if cs.getLast? = some '/' then
    let front := cs.dropLast
    (if front.getLast? = some '\\' then front.dropLast else front, true)
  else (cs, false)

/-- A wildcard without a slash may match in every directory. One for everything in a directory does
not match the directory. -/
def complete (anchored : Bool) (cs : List Char) : List Char :=
  let spread := ['*', '*', '/'].isPrefixOf cs || cs == ['*', '*']
  let cs := if anchored || cs.contains '/' || spread then cs else '*' :: '*' :: '/' :: cs
  if ['/', '*', '*'].isSuffixOf cs then cs ++ ['/', '*'] else cs

def Rule.make (verdict : Verdict) (anchored : Bool) (cs : List Char) : Except Fault Rule :=
  let (wildcard, directoriesOnly) := splitDirectory cs
  (parse (complete anchored wildcard)).map fun tokens => ⟨verdict, directoriesOnly, tokens⟩

/-- A slash in front ties the wildcard to the directory of the file. -/
def Rule.anchor (verdict : Verdict) : List Char → Except Fault Rule
  | '/' :: cs => Rule.make verdict true cs
  | cs => Rule.make verdict false cs

/-- The rule on a trimmed line that is neither empty nor a comment. -/
def Rule.ofLine : List Char → Except Fault Rule
  | '\\' :: '!' :: cs => Rule.make .ignored false ('!' :: cs)
  | '\\' :: '#' :: cs => Rule.make .ignored false ('#' :: cs)
  | '!' :: cs => Rule.anchor .kept cs
  | cs => Rule.anchor .ignored cs

def Rule.applies (r : Rule) (path : List Char) (isDirectory : Bool) : Bool :=
  (isDirectory || !r.directoriesOnly) && isMatch r.tokens path

/-- The last rule that matches decides. -/
def verdict? (rules : List Rule) (path : List Char) (isDirectory : Bool) : Option Verdict :=
  (rules.reverse.find? (·.applies path isDirectory)).map (·.verdict)

/-- What a file says, and what is wrong with it by line. -/
structure Reading where
  rules : List Rule := []
  faults : List (Nat × String) := []
  /-- Whether the rest of the file could not be read as text. -/
  cut : Bool := false

def Reading.add (r : Reading) (number : Nat) (line : List Char) : Reading :=
  let line := if line.head? = some '#' then [] else trimLine line
  if line.isEmpty then r
  else match Rule.ofLine line with
    | .ok rule => { r with rules := r.rules ++ [rule] }
    | .error e =>
      let message := "error parsing glob '" ++ String.ofList line ++ "': " ++ e.message
      { r with faults := r.faults ++ [(number, message)] }

/-- Lines as bytes. A carriage return before a line feed is left out. -/
def rawLines (bytes : List UInt8) : List (List UInt8) :=
  let segments := Text.split 10 bytes
  let ended := segments.dropLast.map fun s => if s.getLast? = some 13 then s.dropLast else s
  match segments.getLast? with
  | some [] => ended
  | some s => ended ++ [s]
  | none => ended

def decode? (bytes : List UInt8) : Option (List Char) :=
  (String.fromUTF8? bytes.toByteArray).map String.toList

def byteOrderMark : Char := '\ufeff'

def readLines (r : Reading) (number : Nat) : List (List UInt8) → Reading
  | [] => r
  | bytes :: rest =>
    match decode? bytes with
    | some line =>
      let line := if number = 1 then line.dropWhile (· == byteOrderMark) else line
      readLines (r.add number line) (number + 1) rest
    | none =>
      { r with
        faults := r.faults ++ [(number, "stream did not contain valid UTF-8")]
        cut := true }

def readRules (content : ByteArray) : Reading := readLines {} 1 (rawLines content.toList)

/-- Text that breaks off is no fault by itself. -/
def Reading.complaints (r : Reading) : List (Nat × String) :=
  if r.cut && r.faults.length ≤ 1 then [] else r.faults

end SourceGauge.Ignore
