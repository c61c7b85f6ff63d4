import SourceGauge.Toml.Scalar

namespace SourceGauge.Toml

def skipGaps (cs : List Char) : List Char := cs.dropWhile isGap

/-- A comment runs to the end of its line. -/
def skipComment : List Char → Option (List Char)
  | '#' :: rest =>
    let after := rest.dropWhile isPrintable
    match after with
    | [] => some []
    | '\n' :: _ => some after
    | '\r' :: '\n' :: _ => some after
    | _ => none
  | cs => some cs

/-- Blanks, comments and line breaks between the parts of an array or an inline table. -/
def skipFiller : Nat → List Char → Option (List Char)
  | 0, cs => some cs
  | fuel + 1, cs => do
    match ← skipComment (skipGaps cs) with
    | '\n' :: rest => skipFiller fuel rest
    | '\r' :: '\n' :: rest => skipFiller fuel rest
    | rest => some rest

def filler (cs : List Char) : Option (List Char) := skipFiller (cs.length + 1) cs

def isBareKey (c : Char) : Bool := c.isAlphanum || c == '_' || c == '-'

def simpleKey : Reader String
  | '"' :: rest => (quoted .plain rest).map fun (key, rest) => (String.ofList key, rest)
  | '\'' :: rest => (literal rest).map fun (key, rest) => (String.ofList key, rest)
  | cs =>
    let key := cs.takeWhile isBareKey
    if key.isEmpty then none else some (String.ofList key, cs.drop key.length)

/-- Keys joined by dots, with blanks allowed around each dot. -/
def keysFrom : Nat → Reader (List String)
  | 0, _ => none
  | fuel + 1, cs => do
    let (key, rest) ← simpleKey cs
    match skipGaps rest with
    | '.' :: more => do
      let (keys, rest) ← keysFrom fuel (skipGaps more)
      some (key :: keys, rest)
    | rest => some ([key], rest)

def keys (cs : List Char) : Option (List String × List Char) := keysFrom (cs.length + 1) cs

/-- Keys, an equals sign and a value. -/
def assignment (value : Reader Value) : Reader (List String × Value) := fun cs => do
  let (ks, rest) ← keys cs
  match rest with
  | '=' :: rest =>
    let (v, rest) ← value (skipGaps rest)
    some ((ks, v), rest)
  | _ => none

/-- The items of an array up to the closing bracket. The last one may be followed by a comma. -/
def items (value : Reader Value) : Nat → Reader (List Value)
  | 0, _ => none
  | fuel + 1, cs => do
    match ← filler cs with
    | ']' :: rest => some ([], rest)
    | cs =>
      let (v, rest) ← value cs
      match ← filler rest with
      | ']' :: rest => some ([v], rest)
      | ',' :: rest => do
        let (vs, rest) ← items value fuel rest
        some (v :: vs, rest)
      | _ => none

/-- The entries of an inline table up to the closing brace. -/
def inlineEntries (value : Reader Value) : Nat → Entries → Reader Entries
  | 0, _, _ => none
  | fuel + 1, es, cs => do
    match ← filler cs with
    | '\x7d' :: rest => some (es, rest)
    | cs =>
      let ((ks, v), rest) ← assignment value cs
      let es ← insert v ks es
      match ← filler rest with
      | '\x7d' :: rest => some (es, rest)
      | ',' :: rest => inlineEntries value fuel es rest
      | _ => none

/-- A value with at most `depth` brackets around each other. -/
def value : Nat → Reader Value
  | depth + 1, '[' :: rest =>
    (items (value depth) (rest.length + 1) rest).map fun (vs, rest) => (.array false vs, rest)
  | depth + 1, '\x7b' :: rest =>
    (inlineEntries (value depth) (rest.length + 1) [] rest).map fun (es, rest) =>
      (.table .inline es, rest)
  | _, cs => scalar cs

def depthLimit : Nat := 80

/-- A document so far, and the header that the next lines stand under. -/
structure Draft where
  entries : Entries := []
  header : List String := []

/-- Opens the table of a header, under which the next lines stand. -/
def Draft.enter (d : Draft) (opening : List String → Entries → Option Entries)
    (path : List String) : Option Draft :=
  (opening path d.entries).map (⟨·, path⟩)

/-- One line without blanks in front: nothing, a header or an assignment. -/
def line (d : Draft) : Reader Draft
  | '[' :: '[' :: rest => do
    match ← keys (skipGaps rest) with
    | (path, ']' :: ']' :: rest) => (d.enter openElement path).map (·, rest)
    | _ => none
  | '[' :: rest => do
    match ← keys (skipGaps rest) with
    | (path, ']' :: rest) => (d.enter openTable path).map (·, rest)
    | _ => none
  | [] => some (d, [])
  | c :: rest =>
    if c == '#' || c == '\n' || c == '\r' then some (d, c :: rest)
    else do
      let ((ks, v), rest) ← assignment (value depthLimit) (c :: rest)
      let es ← descend (insert v ks) d.header d.entries
      some ({ d with entries := es }, rest)

def linesFrom : Nat → Draft → List Char → Option Draft
  | 0, _, _ => none
  | fuel + 1, d, cs => do
    let (d, rest) ← line d (skipGaps cs)
    match ← skipComment (skipGaps rest) with
    | [] => some d
    | '\n' :: rest => linesFrom fuel d rest
    | '\r' :: '\n' :: rest => linesFrom fuel d rest
    | _ => none

def byteOrderMark : Char := '\ufeff'

/-- The entries of a document, if it is well formed. A byte order mark in front is skipped. -/
def parse? (cs : List Char) : Option Entries :=
  let cs := if cs.head? = some byteOrderMark then cs.tail else cs
  (linesFrom (cs.length + 1) {} cs).map (·.entries)

end SourceGauge.Toml
