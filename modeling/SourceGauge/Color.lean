import SourceGauge.Environment

namespace SourceGauge

/-- ASCII letters in lower case, everything else as it is. -/
def asciiLower (s : String) : String := String.ofList (s.toList.map Char.toLower)

inductive ColorMode where
  | auto
  | always
  | never
deriving DecidableEq, Repr

namespace ColorMode

def label : ColorMode → String
  | auto => "auto"
  | always => "always"
  | never => "never"

/-- Letter case does not matter. No letter outside ASCII has a letter of these words as its lower
case. -/
def parse? (s : String) : Option ColorMode :=
  match asciiLower s with
  | "auto" => some auto
  | "always" => some always
  | "never" => some never
  | _ => none

/-- Mode `auto` follows the output: colours appear on a terminal only. -/
def usesColor (terminal : Bool) : ColorMode → Bool
  | auto => terminal
  | always => true
  | never => false

/-- Variables `NO_COLOR` and `CLICOLOR=0` switch colours off, `CLICOLOR_FORCE=1` switches them on,
and the last one wins. -/
def ofEnvironment (env : Environment) : ColorMode :=
  if env "CLICOLOR_FORCE" = some "1" then always
  else if (env "NO_COLOR").isSome || env "CLICOLOR" = some "0" then never
  else auto

/-- A preference counts only where the environment left the mode open. -/
def prefer (mode : ColorMode) (useColor : Option Bool) : ColorMode :=
  match mode, useColor with
  | auto, some true => always
  | auto, some false => never
  | mode, _ => mode

end ColorMode

inductive Style where
  | success
  | error
  | warning
  | info
  | header
  | bold
  | dim
deriving DecidableEq, Repr

namespace Style

def escape : Char := '\x1b'

/-- The digits between the bracket and the final letter. -/
def code : Style → List Char
  | success => ['3', '2']
  | error => ['3', '1']
  | warning => ['3', '3']
  | info => ['3', '6']
  | header => ['1', ';', '3', '4']
  | bold => ['1']
  | dim => ['2']

def opening (s : Style) : List Char := escape :: '[' :: s.code ++ ['m']

def reset : List Char := [escape, '[', '0', 'm']

/-- Every reset inside the text is followed by `start`, so that the text after it keeps its
style. -/
def reopen (start : List Char) : List Char → List Char
  | [] => []
  | '\x1b' :: '[' :: '0' :: 'm' :: rest => reset ++ start ++ reopen start rest
  | c :: rest => c :: reopen start rest

def paintChars (s : Style) (text : List Char) : List Char :=
  s.opening ++ reopen s.opening text ++ reset

def paint (s : Style) (colored : Bool) (text : String) : String :=
  if colored then String.ofList (s.paintChars text.toList) else text

@[simp] theorem paint_false (s : Style) (text : String) : s.paint false text = text := rfl

end Style
end SourceGauge
