import SourceGauge.Text.Suffix

namespace SourceGauge.Ignore

inductive Token where
  | literal (c : Char)
  | one
  | run
  /-- A class of bytes, made of ranges of characters. -/
  | among (negated : Bool) (ranges : List (Char × Char))
  /-- Two stars in front: nothing, or whole directories. -/
  | leadingDirectories
  /-- Two stars between slashes: a slash, perhaps with whole directories after it. -/
  | innerDirectories
  /-- Two stars at the end: a slash and whatever follows. -/
  | everythingBelow
  /-- Braces. Without branches they stand for nothing at all. -/
  | alternatives (branches : List (List Token))

inductive Fault where
  | reversedRange (first last : Char)
  | unopenedBrace
  | unclosedBrace
  | danglingEscape
deriving DecidableEq, Repr

def Fault.message : Fault → String
  | reversedRange a b =>
    "invalid range; '" ++ String.singleton a ++ "' > '" ++ String.singleton b ++ "'"
  | unopenedBrace =>
    "unopened alternate group; missing '\x7b' (maybe escape '\x7d' with '[\x7d]'?)"
  | unclosedBrace =>
    "unclosed alternate group; missing '\x7d' (maybe escape '\x7b' with '[\x7b]'?)"
  | danglingEscape => "dangling '\\'"

/-- The ranges of a class, last one first, with the end of the last one moved. -/
def extend (last : Char) : List (Char × Char) → Except Fault (List (Char × Char))
  | (a, _) :: rest => if last < a then .error (.reversedRange a last) else .ok ((a, last) :: rest)
  | [] => .ok [(last, last)]

/-- The members of a class and what follows it, or nothing if it is never closed. A bracket or dash
in front is a member, a dash at the end too, and any other dash makes a range. -/
def members (first dashed : Bool) (held : List (Char × Char)) :
    List Char → Except Fault (Option (List (Char × Char) × List Char))
  | [] => .ok none
  | c :: rest =>
    if c = ']' && !first then
      .ok (some ((if dashed then ('-', '-') :: held else held).reverse, rest))
    else if dashed then do members false false (← extend c held) rest
    else if c = '-' && !first then members false true held rest
    else members false false ((c, c) :: held) rest

def class? (cs : List Char) : Except Fault (Option (Token × List Char)) := do
  let negated := cs.head? = some '!' || cs.head? = some '^'
  let found ← members true false [] (if negated then cs.tail else cs)
  return found.map fun (ranges, rest) => (.among negated ranges, rest)

def isVoid (branch : List Token) : Bool :=
  branch.all fun
    | .alternatives [] => true
    | _ => false

/-- A wildcard so far. Tokens are kept last one first. -/
structure Draft where
  tokens : List Token := []
  /-- For each open brace the tokens before it and its finished branches. -/
  groups : List (List Token × List (List Token)) := []
  /-- After a bracket that is never closed, brackets are ordinary characters. -/
  plainBrackets : Bool := false

namespace Draft

def push (d : Draft) (t : Token) : Draft := { d with tokens := t :: d.tokens }

def openBrace (d : Draft) : Draft := { d with tokens := [], groups := (d.tokens, []) :: d.groups }

/-- A comma counts only between braces. -/
def comma (d : Draft) : Draft :=
  match d.groups with
  | [] => d.push (.literal ',')
  | (outer, branches) :: groups =>
    { d with tokens := [], groups := (outer, branches ++ [d.tokens.reverse]) :: groups }

/-- Branches that stand for nothing are left out. -/
def closeBrace (d : Draft) : Except Fault Draft :=
  match d.groups with
  | [] => .error .unopenedBrace
  | (outer, branches) :: groups =>
    let live := (branches ++ [d.tokens.reverse]).filter (!isVoid ·)
    .ok { d with tokens := .alternatives live :: outer, groups }

/-- Two stars that are no whole component count as two single ones. -/
def twoRuns (d : Draft) : Draft := (d.push .run).push .run

/-- Two stars take the place of the slash before them. -/
def absorb (d : Draft) (t : Token) : Draft :=
  match d.tokens with
  | .leadingDirectories :: _ => d
  | .everythingBelow :: _ => d
  | _ :: tokens => { d with tokens := t :: tokens }
  | [] => d.push t

/-- Two stars, given the character before them and the text after them. The flag tells whether a
slash after them belongs to them. -/
def twoStars (d : Draft) (before : Option Char) (after : List Char) : Draft × Bool :=
  let starts := before = some '/' ||
    (!d.groups.isEmpty && (before = some ',' || before = some '\x7b'))
  if d.tokens.isEmpty then
    match after with
    | [] => (d.push .leadingDirectories, false)
    | '/' :: _ => (d.push .leadingDirectories, true)
    | _ => (d.twoRuns, false)
  else if !starts then (d.twoRuns, false)
  else match after with
    | [] => (d.absorb .everythingBelow, false)
    | '/' :: _ => (d.absorb .innerDirectories, true)
    | c :: _ =>
      if !d.groups.isEmpty && (c = ',' || c = '\x7d') then (d.absorb .everythingBelow, false)
      else (d.twoRuns, false)

end Draft

/-- Reads on after the character `before`. -/
def tokensFrom : Nat → Draft → Option Char → List Char → Except Fault (List Token)
  | _, d, _, [] => if d.groups.isEmpty then .ok d.tokens.reverse else .error .unclosedBrace
  | 0, _, _, _ => .error .unclosedBrace
  | fuel + 1, d, before, c :: rest =>
    match c, rest with
    | '?', _ => tokensFrom fuel (d.push .one) (some c) rest
    | '*', '*' :: after =>
      match d.twoStars before after with
      | (d, true) => tokensFrom fuel d (some '/') after.tail
      | (d, false) => tokensFrom fuel d (some '*') after
    | '*', _ => tokensFrom fuel (d.push .run) (some c) rest
    | '[', _ =>
      if d.plainBrackets then tokensFrom fuel (d.push (.literal '[')) (some c) rest
      else do
        match ← class? rest with
        | some (token, after) => tokensFrom fuel (d.push token) (some ']') after
        | none => tokensFrom fuel { d.push (.literal '[') with plainBrackets := true } (some c) rest
    | '\x7b', _ => tokensFrom fuel d.openBrace (some c) rest
    | '\x7d', _ => do tokensFrom fuel (← d.closeBrace) (some c) rest
    | ',', _ => tokensFrom fuel d.comma (some c) rest
    | '\\', [] => .error .danglingEscape
    | '\\', e :: after => tokensFrom fuel (d.push (.literal e)) (some e) after
    | _, _ => tokensFrom fuel (d.push (.literal c)) (some c) rest

def parse (wildcard : List Char) : Except Fault (List Token) :=
  tokensFrom (wildcard.length + 1) {} none wildcard

def slash : UInt8 := 0x2F

def encode (cs : List Char) : List UInt8 := cs.flatMap String.utf8EncodeChar

/-- A range between two characters as ranges of bytes: the last byte of the first character and the
first byte of the last one are its ends, the other bytes stand for themselves. -/
def byteRanges (first last : Char) : List (UInt8 × UInt8) :=
  let low := String.utf8EncodeChar first
  let high := String.utf8EncodeChar last
  let single := fun (b : UInt8) => (b, b)
  if first = last then low.map single
  else low.dropLast.map single ++ [(low.getLastD 0, high.headD 0)] ++ high.tail.map single

def inClass (ranges : List (Char × Char)) (b : UInt8) : Bool :=
  ranges.any fun (first, last) =>
    (byteRanges first last).any fun (low, high) => low ≤ b && b ≤ high

/-- The suffixes that begin before the first slash or at it. -/
def runSuffixes : List UInt8 → List (List UInt8)
  | [] => [[]]
  | b :: rest => (b :: rest) :: if b = slash then [] else runSuffixes rest

mutual

/-- Whether the token matches some front part of the bytes and `next` accepts the rest. -/
def Token.accepts (next : List UInt8 → Bool) (bytes : List UInt8) : Token → Bool
  | .literal c =>
    let code := String.utf8EncodeChar c
    code.isPrefixOf bytes && next (bytes.drop code.length)
  | .one =>
    match bytes with
    | b :: rest => b != slash && next rest
    | [] => false
  | .run => (runSuffixes bytes).any next
  | .among negated ranges =>
    match bytes with
    | b :: rest => inClass ranges b != negated && next rest
    | [] => false
  | .leadingDirectories => next bytes || (Text.suffixesAfter slash bytes).any next
  | .innerDirectories =>
    match bytes with
    | b :: rest => b == slash && (next rest || (Text.suffixesAfter slash rest).any next)
    | [] => false
  | .everythingBelow =>
    match bytes with
    | b :: rest => b == slash && (Text.suffixes rest).any next
    | [] => false
  | .alternatives [] => next bytes
  | .alternatives (branch :: branches) => acceptsAny next bytes (branch :: branches)

def acceptsAll (next : List UInt8 → Bool) (bytes : List UInt8) : List Token → Bool
  | [] => next bytes
  | t :: tokens => t.accepts (fun rest => acceptsAll next rest tokens) bytes

def acceptsAny (next : List UInt8 → Bool) (bytes : List UInt8) : List (List Token) → Bool
  | [] => false
  | branch :: branches => acceptsAll next bytes branch || acceptsAny next bytes branches

end

def literals? (tokens : List Token) : Option (List Char) :=
  tokens.mapM fun
    | .literal c => some c
    | _ => none

/-- A path that ends in a dot has no file name to compare. A wildcard that ends in a dot matches it
only if nothing but the whole path, or its last few components, have to be compared. -/
def comparesNames (tokens : List Token) : Bool :=
  match tokens with
  | .leadingDirectories :: rest => !(literals? rest).any (·.contains '/')
  | tokens => (literals? tokens).isNone

def endsInDot (tokens : List Token) : Bool :=
  match tokens.getLast? with
  | some (.literal '.') => true
  | _ => false

/-- Whether the tokens match the whole path, by its bytes, so a question mark stands for one byte.
Two stars alone match everything. -/
def isMatch (tokens : List Token) (path : List Char) : Bool :=
  match tokens with
  | [.leadingDirectories] => true
  | tokens =>
    if endsInDot tokens && comparesNames tokens then false
    else acceptsAll List.isEmpty (encode path) tokens

end SourceGauge.Ignore
