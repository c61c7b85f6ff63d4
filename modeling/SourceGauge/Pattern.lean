import SourceGauge.Text.Suffix

namespace SourceGauge.Pattern

/-- The characters from `first` to `last`. -/
structure Range where
  first : Char
  last : Char
deriving DecidableEq, Repr

def Range.contains (r : Range) (c : Char) : Bool := r.first ≤ c && c ≤ r.last

inductive Token where
  | char (c : Char)
  | one
  | run
  /-- Nothing, any number of whole directories, or everything that is left. -/
  | directories
  | among (ranges : List Range)
  | except (ranges : List Range)
deriving DecidableEq, Repr

/-- What is wrong, and where. -/
inductive Fault where
  | tooManyStars (position : Nat)
  | partialComponent (position : Nat)
  | openClass (position : Nat)
deriving DecidableEq, Repr

def Fault.message : Fault → String
  | tooManyStars n => at_ n "wildcards are either regular `*` or recursive `**`"
  | partialComponent n => at_ n "recursive wildcards must form a single path component"
  | openClass n => at_ n "invalid range pattern"
where
  at_ (position : Nat) (what : String) : String :=
    "Pattern syntax error near position " ++ toString position ++ ": " ++ what

/-- A dash between two characters makes a range of them. -/
def ranges : List Char → List Range
  | a :: '-' :: b :: rest => ⟨a, b⟩ :: ranges rest
  | a :: rest => ⟨a, a⟩ :: ranges rest
  | [] => []

/-- The members of a class after its opening bracket and what follows its end. The first member may
be a closing bracket. -/
def members? : List Char → Option (List Char × List Char)
  | [] => none
  | first :: rest =>
    let inner := rest.takeWhile (· != ']')
    match rest.drop inner.length with
    | [] => none
    | _ :: after => some (first :: inner, after)

/-- A class and the number of characters it takes, bracket to bracket. -/
def class? : List Char → Option (Token × Nat)
  | '!' :: rest => (members? rest).map fun (ms, _) => (.except (ranges ms), ms.length + 3)
  | rest => (members? rest).map fun (ms, _) => (.among (ranges ms), ms.length + 2)

/-- Reads on at `position`. `before` is the character in front and `skip` counts characters that
belong to the token before. -/
def tokensFrom (before : Option Char) (position : Nat) :
    Nat → List Char → Except Fault (List Token)
  | _, [] => .ok []
  | skip + 1, c :: rest => tokensFrom (some c) (position + 1) skip rest
  | 0, '?' :: rest => (tokensFrom (some '?') (position + 1) 0 rest).map (.one :: ·)
  | 0, '[' :: rest =>
    match class? rest with
    | some (token, size) => (tokensFrom (some '[') (position + 1) (size - 1) rest).map (token :: ·)
    | none => .error (.openClass position)
  | 0, '*' :: rest =>
    let stars := 1 + (rest.takeWhile (· == '*')).length
    let after := rest.drop (stars - 1)
    if 2 < stars then .error (.tooManyStars (position + 2))
    else if stars = 1 then (tokensFrom (some '*') (position + 1) 0 rest).map (.run :: ·)
    else if before.any (· != '/') then .error (.partialComponent (position - 1))
    else match after with
      | [] => .ok [.directories]
      | '/' :: _ => (tokensFrom (some '*') (position + 1) 2 rest).map (.directories :: ·)
      | _ => .error (.partialComponent (position + 2))
  | 0, c :: rest => (tokensFrom (some c) (position + 1) 0 rest).map (.char c :: ·)

def parse (pattern : String) : Except Fault (List Token) := tokensFrom none 0 0 pattern.toList

/-- Whether the tokens match the whole text. A star and a question mark stand for any characters,
slashes included. -/
def accepts : List Token → List Char → Bool
  | [], text => text.isEmpty
  | .run :: tokens, text => (Text.suffixes text).any fun rest => accepts tokens rest
  | .directories :: tokens, text =>
    accepts tokens text || accepts tokens [] ||
      (Text.suffixesAfter '/' text).any fun rest => accepts tokens rest
  | token :: tokens, c :: rest => one token c && accepts tokens rest
  | _ :: _, [] => false
where
  one : Token → Char → Bool
    | .char d, c => c == d
    | .among rs, c => rs.any (·.contains c)
    | .except rs, c => !rs.any (·.contains c)
    | _, _ => true

end SourceGauge.Pattern
