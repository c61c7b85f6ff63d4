import SourceGauge.Capacity
import SourceGauge.Decimal
import SourceGauge.Text.Bytes
import SourceGauge.Text.Digit

namespace SourceGauge.Json

inductive Fault where
  /-- The text is no JSON. -/
  | malformed
  /-- The text ends too early. -/
  | unfinished
  /-- The value has the wrong shape or range. -/
  | mismatch
deriving DecidableEq, Repr

def Fault.label : Fault → String
  | malformed => "syntax"
  | unfinished => "eof"
  | mismatch => "data"

/-- Reads a value and gives back the rest of the text. The first thing that is wrong decides the
fault, so a reader for a value of a known shape stops where the text leaves that shape, even when
the text is no JSON further on. -/
abbrev Reader (α : Type) := List Char → Except Fault (α × List Char)

def skipBlanks (cs : List Char) : List Char :=
  cs.dropWhile fun c => c == ' ' || c == '\n' || c == '\t' || c == '\r'

/-- Where the reader stands inside a string. `high` is the first half of a surrogate pair. -/
inductive StringState where
  | plain
  | escape
  | hex (left value : Nat) (high : Option Nat)
  | pairBackslash (high : Nat)
  | pairLetter (high : Nat)

def simpleEscape? (c : Char) : Option Char :=
  match c with
  | '"' => some '"'
  | '\\' => some '\\'
  | '/' => some '/'
  | 'b' => some '\x08'
  | 'f' => some '\x0c'
  | 'n' => some '\n'
  | 'r' => some '\r'
  | 't' => some '\t'
  | _ => none

/-- Four digits must follow. They are missed when fewer than four bytes are left, whatever these
are. -/
def hexStart (high : Option Nat) (rest : List Char) : Except Fault StringState :=
  if Text.byteLength (rest.take 4) < 4 then .error .unfinished else .ok (.hex 4 0 high)

/-- The state after four digits and the character they give, if they give one. An ignored string
may hold any four digits. -/
def hexDone (ignored : Bool) (value : Nat) (high : Option Nat) :
    Except Fault (StringState × List Char) :=
  let isLow := 0xDC00 ≤ value && value ≤ 0xDFFF
  let isHigh := 0xD800 ≤ value && value ≤ 0xDBFF
  if ignored then .ok (.plain, [])
  else match high with
    | none =>
      if isLow then .error .malformed
      else if isHigh then .ok (.pairBackslash value, [])
      else .ok (.plain, [Char.ofNat value])
    | some h =>
      if isLow then .ok (.plain, [Char.ofNat (0x10000 + (h - 0xD800) * 0x400 + (value - 0xDC00))])
      else .error .malformed

/-- The rest of a string, after its opening quote. `held` is what was read, last character
first. -/
def stringFrom (ignored : Bool) : StringState → List Char → Reader (List Char)
  | _, _, [] => .error .unfinished
  | .plain, held, c :: rest =>
    if c = '"' then .ok (held.reverse, rest)
    else if c = '\\' then stringFrom ignored .escape held rest
    else if c.toNat < 32 then .error .malformed
    else stringFrom ignored .plain (c :: held) rest
  | .escape, held, c :: rest =>
    if c = 'u' then
      match hexStart none rest with
      | .ok state => stringFrom ignored state held rest
      | .error e => .error e
    else match simpleEscape? c with
      | some d => stringFrom ignored .plain (d :: held) rest
      | none => .error .malformed
  | .hex left value high, held, c :: rest =>
    match Text.hexValue? c with
    | none => .error .malformed
    | some d =>
      if left = 1 then
        match hexDone ignored (value * 16 + d) high with
        | .ok (state, read) => stringFrom ignored state (read ++ held) rest
        | .error e => .error e
      else stringFrom ignored (.hex (left - 1) (value * 16 + d) high) held rest
  | .pairBackslash high, held, c :: rest =>
    if c = '\\' then stringFrom ignored (.pairLetter high) held rest else .error .malformed
  | .pairLetter high, held, c :: rest =>
    if c = 'u' then
      match hexStart (some high) rest with
      | .ok state => stringFrom ignored state held rest
      | .error e => .error e
    else .error .malformed

/-- A string, after its opening quote. -/
def stringBody : Reader (List Char) := stringFrom false .plain []

def digitsValue (ds : List Char) : Nat := ds.foldl (fun n d => 10 * n + (d.toNat - 48)) 0

/-- Digits that must be there. -/
def someDigits (cs : List Char) : Except Fault (List Char × List Char) :=
  match cs with
  | [] => .error .unfinished
  | c :: _ => if c.isDigit then .ok (cs.takeWhile Char.isDigit, cs.dropWhile Char.isDigit)
    else .error .malformed

/-- The part of a number after its point, if it has one. -/
def fraction (cs : List Char) : Except Fault (Option (List Char) × List Char) :=
  match cs with
  | '.' :: rest => do
    let (ds, rest) ← someDigits rest
    return (some ds, rest)
  | _ => .ok (none, cs)

def exponentDigits (cs : List Char) : Except Fault (Int × List Char) :=
  match cs with
  | '-' :: rest => do
    let (ds, rest) ← someDigits rest
    return (-(digitsValue ds : Int), rest)
  | '+' :: rest => do
    let (ds, rest) ← someDigits rest
    return (digitsValue ds, rest)
  | _ => do
    let (ds, rest) ← someDigits cs
    return (digitsValue ds, rest)

def exponent (cs : List Char) : Except Fault (Option Int × List Char) :=
  match cs with
  | c :: rest =>
    if c = 'e' || c = 'E' then do
      let (e, rest) ← exponentDigits rest
      return (some e, rest)
    else .ok (none, cs)
  | [] => .ok (none, [])

def integerDigits (cs : List Char) : Except Fault (List Char × List Char) := do
  let (ds, rest) ← someDigits cs
  if ds.head? = some '0' && ds.length ≠ 1 then .error .malformed else return (ds, rest)

/-- A number. Its value is given when it is written as a natural number below `2 ^ 64`; a number
too large for a double is no number. -/
def number (cs : List Char) : Except Fault (Option Nat × List Char) := do
  let negative := cs.head? = some '-'
  let (whole, rest) ← integerDigits (if negative then cs.tail else cs)
  let (places, rest) ← fraction rest
  let (power, rest) ← exponent rest
  let value := digitsValue whole
  if places.isNone && power.isNone && value < capacity 64 then
    return (if negative then none else some value, rest)
  else
    let after := places.getD []
    let scale := power.getD 0 - after.length
    if Decimal.overflows (digitsValue (whole ++ after)) scale then .error .malformed
    else return (none, rest)

/-- The remaining letters of a name. -/
def name : List Char → List Char → Except Fault (List Char)
  | [], cs => .ok cs
  | _ :: _, [] => .error .unfinished
  | e :: es, c :: cs => if e = c then name es cs else .error .malformed

/-- A number in an ignored value. A text that ends inside it is malformed. -/
def skipNumber (cs : List Char) : Except Fault (List Char) :=
  let read : Except Fault (List Char) := do
    let (_, rest) ← integerDigits (if cs.head? = some '-' then cs.tail else cs)
    let (_, rest) ← fraction rest
    let (_, rest) ← exponent rest
    return rest
  match read with
  | .ok rest => .ok rest
  | .error _ => .error .malformed

def colon (cs : List Char) : Except Fault (List Char) :=
  match skipBlanks cs with
  | ':' :: rest => .ok rest
  | [] => .error .unfinished
  | _ => .error .malformed

mutual

/-- Passes over one value. -/
def skipValue : Nat → List Char → Except Fault (List Char)
  | 0, _ => .error .malformed
  | fuel + 1, cs =>
    match skipBlanks cs with
    | [] => .error .unfinished
    | 'n' :: rest => name ['u', 'l', 'l'] rest
    | 't' :: rest => name ['r', 'u', 'e'] rest
    | 'f' :: rest => name ['a', 'l', 's', 'e'] rest
    | '"' :: rest => (stringFrom true .plain [] rest).map (·.2)
    | '[' :: rest =>
      match skipBlanks rest with
      | [] => .error .unfinished
      | ']' :: rest => .ok rest
      | rest => skipItems fuel rest
    | '{' :: rest =>
      match skipBlanks rest with
      | [] => .error .unfinished
      | '}' :: rest => .ok rest
      | rest => skipMembers fuel rest
    | c :: rest => if c = '-' || c.isDigit then skipNumber (c :: rest) else .error .malformed

def skipItems : Nat → List Char → Except Fault (List Char)
  | 0, _ => .error .malformed
  | fuel + 1, cs => do
    let rest ← skipValue fuel cs
    match skipBlanks rest with
    | ',' :: rest => skipItems fuel rest
    | ']' :: rest => .ok rest
    | [] => .error .unfinished
    | _ => .error .malformed

def skipMembers : Nat → List Char → Except Fault (List Char)
  | 0, _ => .error .malformed
  | fuel + 1, cs =>
    match skipBlanks cs with
    | '"' :: rest => do
      let (_, rest) ← stringFrom true .plain [] rest
      let rest ← skipValue fuel (← colon rest)
      match skipBlanks rest with
      | ',' :: rest => skipMembers fuel rest
      | '}' :: rest => .ok rest
      | [] => .error .unfinished
      | _ => .error .malformed
    | [] => .error .unfinished
    | _ => .error .malformed

end

/-- Every bracket, name and separator takes a character, so the fuel never runs out. -/
def ignore : Reader Unit := fun cs => (skipValue (2 * cs.length + 2) cs).map ((), ·)

/-- The fault of a value that is not of the wanted shape: one inside a scalar comes first. -/
def unexpected (cs : List Char) : Fault :=
  let faultOf {α : Type} : Except Fault α → Fault
    | .ok _ => .mismatch
    | .error e => e
  match cs with
  | [] => .unfinished
  | 'n' :: rest => faultOf (name ['u', 'l', 'l'] rest)
  | 't' :: rest => faultOf (name ['r', 'u', 'e'] rest)
  | 'f' :: rest => faultOf (name ['a', 'l', 's', 'e'] rest)
  | '"' :: rest => faultOf (stringBody rest)
  | '[' :: _ => .mismatch
  | '{' :: _ => .mismatch
  | c :: rest => if c = '-' || c.isDigit then faultOf (number (c :: rest)) else .malformed

def string : Reader String := fun cs =>
  match skipBlanks cs with
  | '"' :: rest => (stringBody rest).map fun (s, rest) => (String.ofList s, rest)
  | cs => .error (unexpected cs)

/-- A natural number below `bound`. -/
def natural (bound : Nat) : Reader Nat := fun cs =>
  match skipBlanks cs with
  | [] => .error .unfinished
  | c :: rest =>
    if c = '-' || c.isDigit then do
      let (value, rest) ← number (c :: rest)
      match value with
      | some n => if n < bound then return (n, rest) else .error .mismatch
      | none => .error .mismatch
    else .error (unexpected (c :: rest))

/-- The start of the next item of an array, or nothing before the closing bracket. -/
def nextItem (first : Bool) (cs : List Char) : Except Fault (Option (List Char)) :=
  match skipBlanks cs with
  | [] => .error .unfinished
  | ']' :: _ => .ok none
  | c :: rest =>
    if first then .ok (some (c :: rest))
    else if c = ',' then
      match skipBlanks rest with
      | [] => .error .unfinished
      | ']' :: _ => .error .malformed
      | rest => .ok (some rest)
    else .error .malformed

def closeArray (cs : List Char) : Except Fault (List Char) :=
  match skipBlanks cs with
  | ']' :: rest => .ok rest
  | [] => .error .unfinished
  | _ => .error .malformed

/-- The remaining items of an array. `held` is what was read, last item first. -/
def itemsFrom (item : Reader α) : Nat → Bool → List α → Reader (List α)
  | 0, _, _, _ => .error .malformed
  | fuel + 1, first, held, cs => do
    match ← nextItem first cs with
    | none => return (held.reverse, ← closeArray cs)
    | some rest =>
      let (a, rest) ← item rest
      itemsFrom item fuel false (a :: held) rest

def array (item : Reader α) : Reader (List α) := fun cs =>
  match skipBlanks cs with
  | '[' :: rest => itemsFrom item (rest.length + 1) true [] rest
  | cs => .error (unexpected cs)

/-- The start of the next key of an object, after its opening quote, or the end of the object. -/
def nextKey (first : Bool) (cs : List Char) : Except Fault (Option (List Char) × List Char) :=
  match skipBlanks cs with
  | [] => .error .unfinished
  | '}' :: rest => .ok (none, rest)
  | c :: rest =>
    if first then if c = '"' then .ok (some rest, []) else .error .malformed
    else if c = ',' then
      match skipBlanks rest with
      | '"' :: rest => .ok (some rest, [])
      | [] => .error .unfinished
      | _ => .error .malformed
    else .error .malformed

/-- The remaining members of an object. `member` is given the key and what stands before the
colon. -/
def membersFrom (member : String → σ → Reader σ) : Nat → Bool → σ → Reader σ
  | 0, _, _, _ => .error .malformed
  | fuel + 1, first, s, cs => do
    match ← nextKey first cs with
    | (none, rest) => return (s, rest)
    | (some rest, _) =>
      let (key, rest) ← stringBody rest
      let (s, rest) ← member (String.ofList key) s rest
      membersFrom member fuel false s rest

def members (member : String → σ → Reader σ) (s : σ) : Reader σ := fun cs =>
  membersFrom member (cs.length + 1) true s cs

/-- Sets a field that may be set once only. -/
def once (old : Option α) (value : Reader α) (set : Option α → σ) : Reader σ := fun cs =>
  match old with
  | some _ => .error .mismatch
  | none => do
    let (a, rest) ← value (← colon cs)
    return (set (some a), rest)

def wanted (field : Option α) : Except Fault α :=
  match field with
  | some a => .ok a
  | none => .error .mismatch

/-- One field of a record written as an array. -/
def slot (first : Bool) (value : Reader α) : Reader α := fun cs => do
  match ← nextItem first cs with
  | some rest => value rest
  | none => .error .mismatch

/-- A record is an object with named fields or an array of all fields in order. -/
def record (ordered named : Reader α) : Reader α := fun cs =>
  match skipBlanks cs with
  | '[' :: rest => do
    let (a, rest) ← ordered rest
    return (a, ← closeArray rest)
  | '{' :: rest => named rest
  | cs => .error (unexpected cs)

/-- A whole text: after the value come blanks only. -/
def whole (value : Reader α) (cs : List Char) : Except Fault α := do
  let (a, rest) ← value cs
  if (skipBlanks rest).isEmpty then return a else .error .malformed

end SourceGauge.Json
