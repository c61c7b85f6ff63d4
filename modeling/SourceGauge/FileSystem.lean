import SourceGauge.Path
import SourceGauge.Text.Bytes

namespace SourceGauge

/-- Names from the innermost outwards. The empty list is the root. -/
abbrev Location := List (List Char)

/-- What can stand at a place. Devices, pipes and sockets are left out. -/
inductive Entry where
  | file (content : ByteArray)
  | directory
  | link (target : List Char)

def Entry.isFile : Entry → Bool
  | file _ => true
  | _ => false

def Entry.isDirectory : Entry → Bool
  | directory => true
  | _ => false

/-- Which entry stands at which place. Faults that show only after a file was opened are left out:
what can be opened is read or written to its end. -/
structure FileSystem where
  entries : List (Location × Entry) := []
  /-- Where relative paths begin. -/
  working : Location := []

namespace FileSystem

inductive Fault where
  | notFound
  | notDirectory
  | isDirectory
  | nameTooLong
  | tooManyLinks
  | nulByte
  | notText
deriving DecidableEq, Repr

def Fault.message : Fault → String
  | notFound => "No such file or directory (os error 2)"
  | notDirectory => "Not a directory (os error 20)"
  | isDirectory => "Is a directory (os error 21)"
  | nameTooLong => "File name too long (os error 36)"
  | tooManyLinks => "Too many levels of symbolic links (os error 40)"
  | nulByte => "file name contained an unexpected NUL byte"
  | notText => "stream did not contain valid UTF-8"

/-- A directory that was removed while the program stands in it has lost its name. It stays an empty
directory, and the way up from it is known. -/
def isRemoved : Location → Bool
  | name :: _ => name.isEmpty
  | [] => false

/-- The root and a removed directory need no entry. -/
def isGiven (loc : Location) : Bool := loc.isEmpty || isRemoved loc

def lookup? (fs : FileSystem) (loc : Location) : Option Entry :=
  if isGiven loc then some .directory else (fs.entries.find? (·.1 = loc)).map (·.2)

def hasDirectory (fs : FileSystem) (loc : Location) : Bool :=
  (fs.lookup? loc).any Entry.isDirectory

/-- Puts an entry at a place, whatever stood there before. -/
def put (fs : FileSystem) (loc : Location) (e : Entry) : FileSystem :=
  { fs with entries := (loc, e) :: fs.entries.filter (·.1 ≠ loc) }

theorem find?_filter_ne {loc l : Location} (h : l ≠ loc) (es : List (Location × Entry)) :
    (es.filter (·.1 ≠ loc)).find? (·.1 = l) = es.find? (·.1 = l) := by
  induction es with
  | nil => rfl
  | cons x rest ih => by_cases hx : x.1 = loc <;> by_cases hl : x.1 = l <;> simp_all

/-- After a change every place but one holds what it held before. -/
theorem lookup?_put (fs : FileSystem) {loc : Location} (h : isGiven loc = false) (e : Entry)
    (l : Location) : (fs.put loc e).lookup? l = if l = loc then some e else fs.lookup? l := by
  by_cases hl : l = loc
  · simp [lookup?, put, hl, h]
  · have hne : ¬loc = l := fun h => hl h.symm
    rw [if_neg hl, lookup?, lookup?, put, List.find?_cons_of_neg (by simpa using hne),
      find?_filter_ne hl]

/-- Makes a directory and those above it where nothing stands yet. -/
def makeDirectory (fs : FileSystem) : Location → FileSystem
  | [] => fs
  | name :: above =>
    let fs := makeDirectory fs above
    if (fs.lookup? (name :: above)).isSome then fs else fs.put (name :: above) .directory

/-- The absolute path of a place. -/
def absolute (loc : Location) : List Char := '/' :: Text.join '/' loc.reverse

/-- The path of the working directory, which it has as long as it is not removed. -/
def currentDirectory (fs : FileSystem) : Except Fault (List Char) :=
  if isRemoved fs.working then .error .notFound else .ok (absolute fs.working)

/-- The names that lead from a directory to each entry below it. -/
def below (fs : FileSystem) (dir : Location) : List (List (List Char)) :=
  fs.entries.filterMap fun (loc, _) =>
    if dir.isSuffixOf loc && loc ≠ dir then some (loc.take (loc.length - dir.length)).reverse
    else none

/-- The longest name and the length that no path reaches, in bytes. -/
def nameLimit : Nat := 255

def pathLimit : Nat := 4096

/-- How many links may be followed on the way to one place. -/
def linkLimit : Nat := 40

/-- Goes from a directory along the pieces of a path. `follow` goes on where a link leads. When a
file is to be created, the last name may be free, and a slash after it asks for a directory. -/
def advance (fs : FileSystem) (creating : Bool)
    (follow : Location → List (List Char) → Except Fault Location) :
    Location → List (List Char) → Except Fault Location
  | loc, [] => .ok loc
  | loc, piece :: rest =>
    if Path.isNoise piece then advance fs creating follow loc rest
    else if piece = ['.', '.'] then advance fs creating follow loc.tail rest
    else if creating && !rest.isEmpty && rest.all List.isEmpty then .error .isDirectory
    else if isRemoved loc then .error .notFound
    else if nameLimit < Text.byteLength piece then .error .nameTooLong
    else match fs.lookup? (piece :: loc) with
      | none => if creating && rest.isEmpty then .ok (piece :: loc) else .error .notFound
      | some .directory => advance fs creating follow (piece :: loc) rest
      | some (.file _) => if rest.isEmpty then .ok (piece :: loc) else .error .notDirectory
      | some (.link target) =>
        follow (if Path.isAbsolute target then [] else loc) (Text.split '/' target ++ rest)

/-- Goes along a path that may lead through so many links. -/
def resolve (fs : FileSystem) (creating : Bool) :
    Nat → Location → List (List Char) → Except Fault Location
  | 0 => advance fs creating fun _ _ => .error .tooManyLinks
  | links + 1 => advance fs creating (resolve fs creating links)

/-- The place that a path names, after all links. -/
def locate (fs : FileSystem) (creating : Bool) (path : List Char) : Except Fault Location :=
  if path.contains '\x00' then .error .nulByte
  else if path.isEmpty then .error .notFound
  else if pathLimit ≤ Text.byteLength path then .error .nameTooLong
  else resolve fs creating linkLimit (if Path.isAbsolute path then [] else fs.working)
    (Text.split '/' path)

/-- What a path leads to. -/
def find? (fs : FileSystem) (path : List Char) : Option Entry :=
  match fs.locate false path with
  | .ok loc => fs.lookup? loc
  | .error _ => none

def contains (fs : FileSystem) (path : List Char) : Bool := (fs.find? path).isSome

def isFile (fs : FileSystem) (path : List Char) : Bool := (fs.find? path).any Entry.isFile

def readBytes (fs : FileSystem) (path : List Char) : Except Fault ByteArray := do
  match fs.lookup? (← fs.locate false path) with
  | some (.file content) => return content
  | some .directory => throw .isDirectory
  | _ => throw .notFound

/-- The text of a file. -/
def readText (fs : FileSystem) (path : List Char) : Except Fault String := do
  match String.fromUTF8? (← fs.readBytes path) with
  | some text => return text
  | none => throw .notText

/-- Creates a file or replaces its content. Nothing else changes. -/
def writeText (fs : FileSystem) (path : List Char) (text : String) : Except Fault FileSystem := do
  let loc ← fs.locate true path
  if fs.hasDirectory loc then throw .isDirectory
  return fs.put loc (.file text.toUTF8)

end FileSystem
end SourceGauge
