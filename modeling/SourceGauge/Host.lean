import SourceGauge.Command

namespace SourceGauge.Host

/-- An absolute path of the machine. -/
def machinePath (path : List Char) := (· / String.ofList path) <$> IO.appPath

/-- What stands at an absolute path, links not followed. A link leads to the place that all links
after it lead to, and one that leads nowhere counts as missing. -/
def entryAt? (path : List Char) (withContent : Bool) : IO (Option Entry) := do
  let here ← machinePath path
  try
    match (← here.symlinkMetadata).type with
    | .dir => return some .directory
    | .file => return some (.file (← if withContent then IO.FS.readBinFile here else pure .empty))
    | .symlink => return some (.link (← IO.FS.realPath here).toString.toList)
    | .other => return none
  catch _ => return none

def names (path : List Char) : IO (List (List Char)) := do
  let here ← machinePath path
  try return (← here.readDir).toList.map (·.fileName.toList)
  catch _ => return []

/-- Adds what stands on the way along the pieces of a path. -/
def followPath (fs : FileSystem) (fuel : Nat) (loc : Location) (pieces : List (List Char)) :
    IO FileSystem := do
  match fuel, pieces with
  | 0, _ => return fs
  | _, [] => return fs
  | fuel + 1, piece :: rest =>
    if Path.isNoise piece then followPath fs fuel loc rest
    else if piece = ['.', '.'] then followPath fs fuel loc.tail rest
    else if FileSystem.isRemoved loc then return fs
    else
      let next := piece :: loc
      match ← entryAt? (FileSystem.absolute next) rest.isEmpty with
      | none => return fs
      | some (.link target) =>
        followPath (fs.put next (.link target)) fuel [] (Text.split '/' target ++ rest)
      | some e => followPath (fs.put next e) fuel next rest

def addPath (fs : FileSystem) (path : List Char) : IO FileSystem :=
  followPath fs FileSystem.pathLimit (if Path.isAbsolute path then [] else fs.working)
    (Text.split '/' path)

/-- Files whose content decides which other files count. -/
def ruleFiles : List (List Char) :=
  [Ignore.dotIgnore, Ignore.dotGitignore, Ignore.dotGit, Ignore.dotJj,
    ".git/info/exclude".toList, Config.fileName.toList]

def addRules (fs : FileSystem) (dir : Location) : IO FileSystem :=
  ruleFiles.foldlM (fun fs name => addPath fs (Path.join (FileSystem.absolute dir) name)) fs

def addRulesAbove (fs : FileSystem) : Location → IO FileSystem
  | [] => addRules fs []
  | name :: loc => do addRulesAbove (← addRules fs (name :: loc)) loc

/-- Adds the tree below a directory. The private directory of a repository is not entered. -/
def addTree (fuel : Nat) (fs : FileSystem) (dir : Location) : IO FileSystem := do
  match fuel with
  | 0 => return fs
  | fuel + 1 =>
    let fs ← addRules fs dir
    (← names (FileSystem.absolute dir)).foldlM (fun fs name => do
      let loc := name :: dir
      match ← entryAt? (FileSystem.absolute loc) false with
      | none => return fs
      | some .directory =>
        let fs := fs.put loc .directory
        if name = Ignore.dotGit then return fs else addTree fuel fs loc
      | some (.link target) => addPath (fs.put loc (.link target)) target
      | some e => return if (fs.lookup? loc).isSome then fs else fs.put loc e) fs

def addRoot (fs : FileSystem) (root : String) : IO FileSystem := do
  let fs ← addPath fs root.toList
  match fs.locate false root.toList with
  | .error _ => return fs
  | .ok loc =>
    if Selection.isStandardInput root.toList then addPath fs Selection.standardInput.path
    else if fs.hasDirectory loc && !FileSystem.isRemoved loc then
      addRulesAbove (← addTree FileSystem.pathLimit fs loc) loc.tail
    else return fs

/-- The working directory and the rules above it. One that was removed is taken to have stood
directly below the root. -/
def start : IO FileSystem := do
  let here? ← try some <$> IO.currentDir catch _ => pure none
  match here? with
  | none => return { working := [[]] }
  | some here =>
    let here := here.toString.toList
    let fs ← addPath {} here
    let working := ((Path.components here).filterMap fun
      | .name n => some n
      | _ => none).reverse
    addRulesAbove { fs with working } working

/-- Everything that an analysis can look at: the way to each path it names, the trees below its
roots, and the ignore and configuration files of the directories above. What it selects is found in
two steps, because the files that are not selected need not be read. -/
def forAnalysis (fs : FileSystem) (environment : Environment) (o : Options) : IO FileSystem := do
  let fs ← o.paths.foldlM addRoot fs
  let fs ← (o.config.toList ++ o.output.toList).foldlM (fun fs p => addPath fs p.toList) fs
  let world : World := ⟨fs, environment, false, false, ""⟩
  match (Command.configuration world o).1 with
  | .error _ => return fs
  | .ok c =>
    let s := Settings.resolve o c environment
    match (Selection.select fs s.extensions s.ignore (o.paths.map String.toList)).1 with
    | .error _ => return fs
    | .ok files => files.foldlM addPath fs

/-- Writes the files that a command has changed. -/
def writeBack (before after : FileSystem) : IO Unit := do
  for (loc, e) in after.entries do
    match e with
    | .file content =>
      let kept := match before.lookup? loc with
        | some (.file old) => old.data == content.data
        | _ => false
      if !kept then IO.FS.writeBinFile (String.ofList (FileSystem.absolute loc)) content
    | _ => pure ()

end SourceGauge.Host
