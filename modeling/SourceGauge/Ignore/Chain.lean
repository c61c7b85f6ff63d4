import SourceGauge.FileSystem
import SourceGauge.Ignore.Rule

namespace SourceGauge.Ignore

/-- What one directory says. -/
structure Book where
  /-- The directory as it is spelled. -/
  directory : List Char
  ignore : List Rule
  gitignore : List Rule
  exclude : List Rule
  isRepository : Bool

/-- The rest of `text` after `front`. -/
def strip? [DecidableEq α] (front text : List α) : Option (List α) :=
  if front.isPrefixOf text then some (text.drop front.length) else none

def strip [DecidableEq α] (front text : List α) : List α := (strip? front text).getD text

def stripDot (path : List Char) : List Char := strip ['.', '/'] path

/-- The path as seen from a directory, both as they are spelled. -/
def relativeTo (directory path : List Char) : List Char :=
  let path := stripDot path
  if Path.same directory ['.'] || !path.contains '/' then path
  else match strip? directory path with
    | some rest => strip ['/'] rest
    | none => path

def Book.ask (b : Book) (rules : Book → List Rule) (path : List Char) (isDirectory : Bool) :
    Option Verdict :=
  verdict? (rules b) (relativeTo (stripDot b.directory) path) isDirectory

/-- The books up to the nearest repository, which is the last one that counts. -/
def upToRepository : List (Book × List Char) → List (Book × List Char)
  | [] => []
  | (b, path) :: rest => if b.isRepository then [(b, path)] else (b, path) :: upToRepository rest

/-- The first verdict of books from the nearest on, each asked about its own spelling. -/
def firstVerdict? (rules : Book → List Rule) (isDirectory : Bool)
    (books : List (Book × List Char)) : Option Verdict :=
  books.findSome? fun (b, path) => b.ask rules path isDirectory

/-- The three kinds of files win over each other in a fixed order. Rules of a repository count only
if some directory on the way is one. -/
def decide? (books : List (Book × List Char)) (isDirectory : Bool) : Option Verdict :=
  let tracked := if books.any (·.1.isRepository) then upToRepository books else []
  (firstVerdict? (·.ignore) isDirectory books).or
    ((firstVerdict? (·.gitignore) isDirectory tracked).or
      (firstVerdict? (·.exclude) isDirectory tracked))

def dotIgnore : List Char := ".ignore".toList

def dotGitignore : List Char := ".gitignore".toList

def dotGit : List Char := ".git".toList

def dotJj : List Char := ".jj".toList

def readFile (fs : FileSystem) (path : List Char) : Reading :=
  match fs.readBytes path with
  | .ok content => readRules content
  | .error _ => {}

/-- The complaints about a file with its path. -/
def complaints (path : List Char) (r : Reading) : List String :=
  r.complaints.map fun (number, message) =>
    String.ofList path ++ ": line " ++ toString number ++ ": " ++ message

/-- The first line of a file, or what is wrong with it. Nothing is wrong with a file that is missing
or empty. -/
def firstLine (fs : FileSystem) (path : List Char) : Except (List String) (List Char) :=
  let complaint (fault : FileSystem.Fault) := String.ofList path ++ ": " ++ fault.message
  match fs.readBytes path with
  | .ok content =>
    match (rawLines content.toList).head? with
    | none => .error []
    | some bytes =>
      match decode? bytes with
      | some line => .ok line
      | none => .error [complaint .notText]
  -- A directory can be opened like a file, and only reading it fails.
  | .error .isDirectory => .error [complaint .isDirectory]
  | .error _ => .error []

/-- A file in place of a repository's directory names another place, which in turn names the common
one. -/
def commonDirectory (fs : FileSystem) (git : List Char) : Except (List String) (List Char) := do
  match strip? "gitdir: ".toList (← firstLine fs git) with
  | none => .error []
  | some real =>
    let common ← firstLine fs (Path.join real "commondir".toList)
    .ok (if common.head? = some '.' then Path.join real common else common)

/-- Where a repository keeps its own files, or what is wrong on the way there. -/
def gitDirectory (fs : FileSystem) (directory : List Char) : Except (List String) (List Char) :=
  let git := Path.join directory dotGit
  if !fs.isFile git then .ok git else commonDirectory fs git

/-- The book of a directory and what is wrong with its files. -/
def Book.read (fs : FileSystem) (directory : List Char) : Book × List String :=
  let ignorePath := Path.join directory dotIgnore
  let gitignorePath := Path.join directory dotGitignore
  let ignore := readFile fs ignorePath
  let gitignore := readFile fs gitignorePath
  let (exclude, excludeComplaints) := match gitDirectory fs directory with
    | .ok git =>
      let path := Path.join git "info/exclude".toList
      let r := readFile fs path
      (r.rules, complaints path r)
    | .error found => ([], found)
  let isRepository :=
    fs.contains (Path.join directory dotGit) || fs.contains (Path.join directory dotJj)
  (⟨directory, ignore.rules, gitignore.rules, exclude, isRepository⟩,
    complaints ignorePath ignore ++ complaints gitignorePath gitignore ++ excludeComplaints)

end SourceGauge.Ignore
