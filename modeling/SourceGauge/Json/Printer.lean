import SourceGauge.Result

namespace SourceGauge.Json

def hexDigit (n : Nat) : Char := (Nat.toDigits 16 n).headD '0'

def escapeChar (c : Char) : List Char :=
  if c = '"' then ['\\', '"']
  else if c = '\\' then ['\\', '\\']
  else if c = '\x08' then ['\\', 'b']
  else if c = '\x0c' then ['\\', 'f']
  else if c = '\n' then ['\\', 'n']
  else if c = '\r' then ['\\', 'r']
  else if c = '\t' then ['\\', 't']
  else if c.toNat < 32 then ['\\', 'u', '0', '0', hexDigit (c.toNat / 16), hexDigit (c.toNat % 16)]
  else [c]

def quoted (s : String) : List Char := '"' :: s.toList.flatMap escapeChar ++ ['"']

def decimal (n : Nat) : List Char := Nat.toDigits 10 n

def newline (depth : Nat) : List Char := '\n' :: List.replicate (2 * depth) ' '

/-- Items on lines of their own between brackets. Brackets around nothing stay together. -/
def enclose (opening closing : Char) (depth : Nat) : List (List Char) → List Char
  | [] => [opening, closing]
  | item :: rest =>
    opening :: newline (depth + 1) ++ item ++
      (rest.flatMap fun i => ',' :: newline (depth + 1) ++ i) ++ newline depth ++ [closing]

def member (name : String) (value : List Char) : List Char := quoted name ++ ':' :: ' ' :: value

def issue (depth : Nat) (i : Issue) : List Char :=
  enclose '{' '}' depth [
    member "type" (quoted i.kind.label), member "message" (quoted i.message),
    member "line" (decimal i.line), member "column" (decimal i.column)]

def metrics (depth : Nat) (m : Metrics) : List Char :=
  enclose '{' '}' depth [
    member "complexity" (decimal m.complexity),
    member "maintainability" (decimal m.maintainability),
    member "linesOfCode" (decimal m.linesOfCode),
    member "issues" (enclose '[' ']' (depth + 1) (m.issues.map (issue (depth + 2))))]

def result (depth : Nat) (r : Result) : List Char :=
  enclose '{' '}' depth [
    member "filePath" (quoted r.identifier), member "metrics" (metrics (depth + 1) r.metrics)]

def results (rs : List Result) : List Char := enclose '[' ']' 0 (rs.map (result 1))

end SourceGauge.Json
