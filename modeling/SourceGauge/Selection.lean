import SourceGauge.Error
import SourceGauge.Ignore.Chain
import SourceGauge.Log
import SourceGauge.Pattern

namespace SourceGauge.Selection

/-- Leading dots and the case of ASCII letters do not count. -/
def normalize (extension : String) : List Char :=
  (extension.toList.dropWhile (· == '.')).map Char.toLower

/-- No extensions ask for every file. -/
def isWanted (extensions : List String) (path : List Char) : Bool :=
  extensions.isEmpty ||
    (Path.extension? path).any fun ext => (extensions.map normalize).contains (ext.map Char.toLower)

/-- The first malformed pattern decides. -/
def compile (patterns : List String) : Except Error (List (List Pattern.Token)) :=
  patterns.mapM fun p => (Pattern.parse p).mapError fun e => .pattern e.message

/-- A pattern may be written for the whole path or for the path below the root. -/
def isLeftOut (patterns : List (List Pattern.Token)) (path names : List Char) : Bool :=
  patterns.any fun p => Pattern.accepts p path || Pattern.accepts p names

/-- A directory that is walked: its spelling, its place, and the books of the directories above
it. -/
structure Root where
  path : List Char
  location : Location
  /-- The nearest book comes first. -/
  above : List Ignore.Book

/-- The same path as the books above the root see it. -/
def Root.absolute (r : Root) (path : List Char) : List Char :=
  let path := Ignore.stripDot path
  let inner :=
    if Path.same r.path ['.'] then path
    else Ignore.strip ['/'] (Ignore.strip (Ignore.stripDot r.path) path)
  Path.join (FileSystem.absolute r.location) inner

/-- Whether an ignore file leaves an entry out. `books` are those below the root, the nearest
first. -/
def Root.ignores (r : Root) (books : List Ignore.Book) (path : List Char) (isDirectory : Bool) :
    Bool :=
  let near := books.map fun b => (b, Ignore.stripDot path)
  let far := r.above.map fun b => (b, r.absolute path)
  Ignore.decide? (near ++ far) isDirectory = some .ignored

/-- Whether the walk reaches an entry: neither it nor a directory on the way is left out, and none
is the private directory of a repository. -/
def Root.reaches (fs : FileSystem) (r : Root) :
    List Ignore.Book → List Char → Location → List (List Char) → Bool
  | _, _, _, [] => true
  | books, dir, loc, name :: names =>
    let path := Path.join dir name
    let loc := name :: loc
    name != Ignore.dotGit &&
      !r.ignores books path (fs.hasDirectory loc) &&
      (names.isEmpty || r.reaches fs ((Ignore.Book.read fs path).1 :: books) path loc names)

/-- The books of the directories above a place, the nearest first, and what is wrong with them. -/
def booksAbove (fs : FileSystem) : Location → List (Ignore.Book × List String)
  | [] => []
  | _ :: loc => Ignore.Book.read fs (FileSystem.absolute loc) :: booksAbove fs loc

/-- The books above a root are found by its absolute path. A relative root has none when the working
directory was removed. -/
def isPlaced (fs : FileSystem) (path : List Char) : Bool :=
  Path.isAbsolute path || !FileSystem.isRemoved fs.working

/-- Everything the walk reaches, as names below the root. Malformed files above the root make the
walk fail. The excludes of the user, which hold for all repositories, are left out. -/
def reached (fs : FileSystem) (path : List Char) (loc : Location) :
    Except Error (List (List (List Char))) :=
  let above := if isPlaced fs path then booksAbove fs loc else []
  let complaints := above.reverse.flatMap (·.2)
  if !complaints.isEmpty then .error (.rules ("\n".intercalate complaints))
  else
    let root : Root := ⟨path, loc, above.map (·.1)⟩
    let books := [(Ignore.Book.read fs path).1]
    .ok ((fs.below loc).filter (root.reaches fs books path loc))

def joinAll (path : List Char) (names : List (List Char)) : List Char := names.foldl Path.join path

/-- An entry that the walk comes to: its path, and what of it follows the root. -/
structure Visit where
  path : List Char
  below : List Char

def visit (root : List Char) (names : List (List Char)) : Visit :=
  ⟨joinAll root names, Text.join '/' names⟩

/-- This root stands for standard input, also where it is a directory. -/
def isStandardInput (root : List Char) : Bool := Path.same root ['-']

/-- Standard input is visited under a name of its own, which does not begin with the root. -/
def standardInput : Visit := ⟨"<stdin>".toList, "<stdin>".toList⟩

/-- What the walk of a root comes to. For standard input that is nothing else, and no ignore file is
read. -/
def visited (fs : FileSystem) (root : List Char) (loc : Location) : Except Error (List Visit) :=
  if isStandardInput root then .ok [standardInput]
  else (reached fs root loc).map (·.map (visit root))

/-- The selected files of those that were visited, in increasing order of paths. -/
def choose (fs : FileSystem) (extensions : List String) (patterns : List (List Pattern.Token))
    (found : List Visit) : List (List Char) :=
  let kept := found.filter fun v =>
    fs.isFile v.path && isWanted extensions v.path && !isLeftOut patterns v.path v.below
  (kept.map (·.path)).mergeSort Path.le

/-- The files below one root and what is logged about them. A root that is a file or does not exist
stands for itself. -/
def walk (fs : FileSystem) (extensions patterns : List String) (root : List Char) :
    Except Error (List (List Char)) × List Log.Record :=
  match fs.locate false root with
  | .error _ => (.ok [root], [])
  | .ok loc =>
    if !fs.hasDirectory loc then (.ok [root], [])
    else
      let files : Except Error (List (List Char)) := do
        let compiled ← compile patterns
        return choose fs extensions compiled (← visited fs root loc)
      match files with
      | .error e => (.error e, [])
      | .ok files =>
        (.ok files, [Log.debug ("Selected " ++ toString files.length ++ " files under " ++
          String.ofList root)])

/-- Drops every path that is the same as an earlier one. `seen` holds those earlier ones. -/
def dedupFrom (seen : List (List Char)) : List (List Char) → List (List Char)
  | [] => []
  | p :: rest =>
    if seen.any (Path.same p) then dedupFrom seen rest else p :: dedupFrom (p :: seen) rest

def dedup (paths : List (List Char)) : List (List Char) := dedupFrom [] paths

/-- The walks of all roots one after another. The first that fails decides. -/
def walkAll (fs : FileSystem) (extensions patterns : List String) :
    List (List Char) → Except Error (List (List Char)) × List Log.Record
  | [] => (.ok [], [])
  | root :: roots =>
    match walk fs extensions patterns root with
    | (.error e, log) => (.error e, log)
    | (.ok files, log) =>
      let (more, moreLog) := walkAll fs extensions patterns roots
      (more.map (files ++ ·), log ++ moreLog)

/-- Each selected file once, under the spelling that came first. -/
def select (fs : FileSystem) (extensions patterns : List String) (roots : List (List Char)) :
    Except Error (List (List Char)) × List Log.Record :=
  let (files, log) := walkAll fs extensions patterns roots
  (files.map dedup, log)

end SourceGauge.Selection
