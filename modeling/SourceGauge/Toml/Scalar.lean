import SourceGauge.Text.Digit
import SourceGauge.Text.Lines
import SourceGauge.Toml.Value

namespace SourceGauge.Toml

open SourceGauge.Text (split digit? digitsValue?)

/-- Reads something and gives back the rest of the text. -/
abbrev Reader (α : Type) := List Char → Option (α × List Char)

def isGap (c : Char) : Bool := c == ' ' || c == '\t'

/-- Control characters other than the tab may stand neither in comments nor in quoted text. -/
def isPrintable (c : Char) : Bool := c == '\t' || (0x20 ≤ c.toNat && c.toNat ≠ 0x7F)

/-- Where the reader stands inside quoted text with escapes. -/
inductive Quoting where
  | plain
  | escape
  /-- Digits of a code point: how many are missing, and the value of those before. -/
  | code (missing value : Nat)
  /-- After a backslash and blanks, before the line break that must follow. -/
  | lineEnd
  /-- After a backslash and a line break: blanks and line breaks are left out. -/
  | folded
deriving DecidableEq, Repr

def simpleEscape? : Char → Option Char
  | 'b' => some '\x08'
  | 't' => some '\t'
  | 'n' => some '\n'
  | 'f' => some '\x0c'
  | 'r' => some '\r'
  | 'e' => some '\x1b'
  | '"' => some '"'
  | '\\' => some '\\'
  | _ => none

def codeLength? : Char → Option Nat
  | 'x' => some 2
  | 'u' => some 4
  | 'U' => some 8
  | _ => none

/-- Surrogates are no characters. -/
def codePoint? (n : Nat) : Option Char := if n.isValidChar then some (Char.ofNat n) else none

def consing (c : Char) (r : Option (List Char × List Char)) : Option (List Char × List Char) :=
  r.map fun (text, rest) => (c :: text, rest)

/-- Text on one line, after its opening quote. -/
def quoted : Quoting → Reader (List Char)
  | _, [] => none
  | .plain, '"' :: rest => some ([], rest)
  | .plain, '\\' :: rest => quoted .escape rest
  | .plain, c :: rest => if isPrintable c then consing c (quoted .plain rest) else none
  | .escape, c :: rest =>
    match simpleEscape? c, codeLength? c with
    | some d, _ => consing d (quoted .plain rest)
    | none, some n => quoted (.code n 0) rest
    | none, none => none
  | .code missing value, c :: rest =>
    (digit? 16 c).bind fun d =>
      let value := value * 16 + d
      if missing ≤ 1 then (codePoint? value).bind fun c => consing c (quoted .plain rest)
      else quoted (.code (missing - 1) value) rest
  | .lineEnd, _ => none
  | .folded, _ => none

/-- Up to two quotes right before the closing three belong to the text. -/
def closing (quote : Char) : Reader (List Char)
  | a :: b :: rest =>
    if a = quote then
      if b = quote then some ([quote, quote], rest) else some ([quote], b :: rest)
    else some ([], a :: b :: rest)
  | [a] => if a = quote then some ([quote], []) else some ([], [a])
  | [] => some ([], [])

/-- Text on several lines, after its opening quotes. A carriage return stands only before a line
feed, and a backslash at the end of a line joins it with the next text. -/
def quotedLines : Quoting → Reader (List Char)
  | _, [] => none
  | .plain, '"' :: '"' :: '"' :: rest => closing '"' rest
  | .plain, '\\' :: rest => quotedLines .escape rest
  | .plain, '\r' :: '\n' :: rest => consing '\r' (consing '\n' (quotedLines .plain rest))
  | .plain, '\n' :: rest => consing '\n' (quotedLines .plain rest)
  | .plain, c :: rest => if isPrintable c then consing c (quotedLines .plain rest) else none
  | .escape, '\n' :: rest => quotedLines .folded rest
  | .escape, '\r' :: '\n' :: rest => quotedLines .folded rest
  | .escape, c :: rest =>
    if isGap c then quotedLines .lineEnd rest
    else match simpleEscape? c, codeLength? c with
      | some d, _ => consing d (quotedLines .plain rest)
      | none, some n => quotedLines (.code n 0) rest
      | none, none => none
  | .code missing value, c :: rest =>
    (digit? 16 c).bind fun d =>
      let value := value * 16 + d
      if missing ≤ 1 then (codePoint? value).bind fun c => consing c (quotedLines .plain rest)
      else quotedLines (.code (missing - 1) value) rest
  | .lineEnd, '\n' :: rest => quotedLines .folded rest
  | .lineEnd, '\r' :: '\n' :: rest => quotedLines .folded rest
  | .lineEnd, c :: rest => if isGap c then quotedLines .lineEnd rest else none
  | .folded, '\n' :: rest => quotedLines .folded rest
  | .folded, '\r' :: '\n' :: rest => quotedLines .folded rest
  | .folded, '"' :: '"' :: '"' :: rest => closing '"' rest
  | .folded, '\\' :: rest => quotedLines .escape rest
  | .folded, c :: rest =>
    if isGap c then quotedLines .folded rest
    else if isPrintable c then consing c (quotedLines .plain rest) else none

/-- Text without escapes on one line. -/
def literal : Reader (List Char)
  | [] => none
  | '\'' :: rest => some ([], rest)
  | c :: rest => if isPrintable c then consing c (literal rest) else none

def literalLines : Reader (List Char)
  | [] => none
  | '\'' :: '\'' :: '\'' :: rest => closing '\'' rest
  | '\r' :: '\n' :: rest => consing '\r' (consing '\n' (literalLines rest))
  | '\n' :: rest => consing '\n' (literalLines rest)
  | c :: rest => if isPrintable c then consing c (literalLines rest) else none

/-- A line break right after the opening quotes is left out. -/
def skipFirstBreak : List Char → List Char
  | '\n' :: rest => rest
  | '\r' :: '\n' :: rest => rest
  | cs => cs

/-- Groups of digits with single underscores between them. -/
def grouped? (base : Nat) (cs : List Char) : Option (List Char) :=
  let groups := split '_' cs
  if groups.all fun g => !g.isEmpty && g.all fun c => (digit? base c).isSome then
    some groups.flatten
  else none

/-- The digits before the point. A zero stands there only alone. -/
def whole? (cs : List Char) : Option (List Char) :=
  (grouped? 10 cs).filter fun ds => ds.length = 1 || ds.head? ≠ some '0'

def exponent? : List Char → Option Int
  | '+' :: cs => natural cs
  | '-' :: cs => (natural cs).map (- ·)
  | cs => natural cs
where
  natural (cs : List Char) : Option Int :=
    ((grouped? 10 cs).bind (digitsValue? 10)).map Int.ofNat

/-- The parts before and after the first character of a kind. -/
def cutAt (p : Char → Bool) (cs : List Char) : List Char × Option (List Char) :=
  match cs.dropWhile (!p ·) with
  | [] => (cs, none)
  | _ :: rest => (cs.takeWhile (!p ·), some rest)

def float? (cs : List Char) : Option Magnitude := do
  let (mantissa, power) := cutAt (fun c => c == 'e' || c == 'E') cs
  let (front, back) := cutAt (· == '.') mantissa
  let ahead ← whole? front
  let behind ← match back with
    | some ds => grouped? 10 ds
    | none => some []
  let shift ← match power with
    | some ds => exponent? ds
    | none => some 0
  let digits ← digitsValue? 10 (ahead ++ behind)
  some (.finite digits (shift - behind.length))

def decimal? (negative : Bool) (cs : List Char) : Option Value :=
  match cs with
  | ['i', 'n', 'f'] => some (.float negative .infinity)
  | ['n', 'a', 'n'] => some (.float negative .nan)
  | _ =>
    if cs.any fun c => c == '.' || c == 'e' || c == 'E' then (float? cs).map (.float negative)
    else ((whole? cs).bind (digitsValue? 10)).map fun n => .integer (if negative then -n else n)

def radix? (base : Nat) (cs : List Char) : Option Value :=
  ((grouped? base cs).bind (digitsValue? base)).map fun n => .integer n

/-- Only decimal numbers have a sign. -/
def number? : List Char → Option Value
  | '0' :: 'x' :: cs => radix? 16 cs
  | '0' :: 'o' :: cs => radix? 8 cs
  | '0' :: 'b' :: cs => radix? 2 cs
  | '+' :: cs => decimal? false cs
  | '-' :: cs => decimal? true cs
  | cs => decimal? false cs

def two? (a b : Char) : Option Nat := digitsValue? 10 [a, b]

def isLeap (year : Nat) : Bool := year % 4 == 0 && (year % 100 != 0 || year % 400 == 0)

def monthLength (year month : Nat) : Nat :=
  if month = 2 then (if isLeap year then 29 else 28)
  else if month = 4 || month = 6 || month = 9 || month = 11 then 30
  else 31

/-- A day that exists, and the rest of the text. -/
def date? : List Char → Option (List Char)
  | y₁ :: y₂ :: y₃ :: y₄ :: '-' :: m₁ :: m₂ :: '-' :: d₁ :: d₂ :: rest => do
    let year ← digitsValue? 10 [y₁, y₂, y₃, y₄]
    let month ← two? m₁ m₂
    let day ← two? d₁ d₂
    if 1 ≤ month && month ≤ 12 && 1 ≤ day && day ≤ monthLength year month then some rest
    else none
  | _ => none

/-- Part of a second: at least one digit after the point. -/
def fraction? : List Char → Option (List Char)
  | '.' :: cs =>
    if (cs.head?.bind (digit? 10)).isSome then some (cs.dropWhile Char.isDigit) else none
  | cs => some cs

def seconds? : List Char → Option (List Char)
  | ':' :: s₁ :: s₂ :: rest => do
    if (← two? s₁ s₂) ≤ 60 then fraction? rest else none
  | ':' :: _ => none
  | cs => some cs

/-- Hours and minutes, then seconds if they are given. A leap second counts as second sixty. -/
def time? : List Char → Option (List Char)
  | h₁ :: h₂ :: ':' :: m₁ :: m₂ :: rest => do
    if (← two? h₁ h₂) ≤ 23 && (← two? m₁ m₂) ≤ 59 then seconds? rest else none
  | _ => none

def isOffset : List Char → Bool
  | [] => true
  | ['Z'] => true
  | ['z'] => true
  | [sign, h₁, h₂, ':', m₁, m₂] =>
    (sign == '+' || sign == '-') && (two? h₁ h₂).any (· ≤ 23) && (two? m₁ m₂).any (· ≤ 59)
  | _ => false

/-- A date, a time, or a date with a time and perhaps an offset. -/
def isDatetime (cs : List Char) : Bool :=
  match date? cs with
  | some [] => true
  | some (c :: rest) =>
    (c == 'T' || c == 't' || c == ' ') && (time? rest).any isOffset
  | none => time? cs == some []

/-- A bare scalar ends before one of these. -/
def endsScalar (c : Char) : Bool :=
  isGap c || [',', '[', ']', '\x7b', '\x7d', '=', '#', '\r', '\n'].contains c

/-- The characters of a bare scalar. One blank may stand between a date and a time. -/
def bare (cs : List Char) : List Char × List Char :=
  let word := cs.takeWhile (!endsScalar ·)
  match date? word, cs.drop word.length with
  | some [], ' ' :: rest =>
    if (rest.head?.bind (digit? 10)).isSome then
      let time := rest.takeWhile (!endsScalar ·)
      (word ++ ' ' :: time, rest.drop time.length)
    else (word, ' ' :: rest)
  | _, rest => (word, rest)

def bareValue? (cs : List Char) : Option Value :=
  if cs = ['t', 'r', 'u', 'e'] then some (.boolean true)
  else if cs = ['f', 'a', 'l', 's', 'e'] then some (.boolean false)
  else if isDatetime cs then some (.datetime (String.ofList cs))
  else number? cs

def textValue (r : Option (List Char × List Char)) : Option (Value × List Char) :=
  r.map fun (text, rest) => (.string (String.ofList text), rest)

def scalar : Reader Value
  | '"' :: '"' :: '"' :: rest => textValue (quotedLines .plain (skipFirstBreak rest))
  | '"' :: rest => textValue (quoted .plain rest)
  | '\'' :: '\'' :: '\'' :: rest => textValue (literalLines (skipFirstBreak rest))
  | '\'' :: rest => textValue (literal rest)
  | cs =>
    let (word, rest) := bare cs
    (bareValue? word).map (·, rest)

end SourceGauge.Toml
