import TreeCompare.Command.Program

/-!
# The program

The first argument names a tool, the others are the tool's. Before a run the
trees that it needs are read from the disk into a file system value. The disk
does not tell the text of a link, so the place where a link leads stands for it,
and an object that cannot be read gets a mode that says so. It does not tell a
pipe from a device either; only the null device is known by its place. Other
programs cannot be started from here.
-/

open TreeCompare

namespace TreeCompare.Disk

/-- The place of an absolute path without links. -/
def place (path : String) : List Name := (Path.ofString path).meaning []

/-- The mode of an object that cannot be read. -/
def unreadable : Mode := ⟨false, false, true⟩

def putDirectory (fs : FileSystem) (mode : Mode) (names : List Name) : FileSystem :=
  fs.put names (.directory mode []) ⟨List.nodup_nil, trivial⟩

/-- An object that is neither a file nor a directory nor a link. -/
def putSpecial (fs : FileSystem) (names : List Name) : FileSystem :=
  let kind := if names = place "/dev/null" then .nullDevice else .pipe
  fs.put names (.special .all kind) trivial

def loadFile (fs : FileSystem) (path : String) (names : List Name) : IO FileSystem := do
  try
    let content ← IO.FS.readBinFile path
    return fs.put names (.file .all content.toList) trivial
  catch _ => return fs.put names (.file unreadable []) trivial

/-- Reads what stands where a link leads, unless it has been read. Of a directory
only that it is there. -/
def loadTarget (fs : FileSystem) (path : String) : IO FileSystem := do
  let target ← IO.FS.realPath path
  let names := place target.toString
  if (fs.trailTo names).isSome then return fs
  match (← target.metadata).type with
  | .file => loadFile fs target.toString names
  | .dir => return putDirectory fs .all names
  | _ => return putSpecial fs names

def loadLink (fs : FileSystem) (path : String) (names : List Name) : IO FileSystem := do
  try
    let target ← IO.FS.realPath path
    loadTarget (fs.put names (.link (.ofString target.toString)) trivial) path
  catch _ => return fs.put names (.link .empty) trivial

partial def loadDirectory (fs : FileSystem) (path : String) (names : List Name) :
    IO FileSystem := do
  let mut fs := putDirectory fs .all names
  try
    let directory ← IO.FS.realPath path
    for entry in ← directory.readDir do
      let file := entry.path.toString
      let names := names ++ place entry.fileName
      match (← entry.path.symlinkMetadata).type with
      | .file => fs ← loadFile fs file names
      | .dir => fs ← loadDirectory fs file names
      | .symlink => fs ← loadLink fs file names
      | .other => fs := putSpecial fs names
    return fs
  catch _ => return putDirectory fs unreadable names

/-- Reads the links, files and directories on the way to a path. -/
def loadWay (fs : FileSystem) (path : Path) : IO FileSystem := do
  let components := ((fs.absolute? path).getD path).components
  let mut fs := fs
  for i in [1:components.length] do
    let before := (Path.ofComponents (components.take i)).display
    match components[i]? with
    | some (.name name) =>
        try
          let parent ← IO.FS.realPath before
          let file := parent / (Path.ofName name).display
          let names := place parent.toString ++ [name]
          match (← file.symlinkMetadata).type with
          | .symlink => fs ← loadLink fs file.toString names
          | _ => fs ← loadTarget fs file.toString
        catch _ => pure ()
    | _ => pure ()
  return fs

def loadTree (fs : FileSystem) (path : Path) : IO FileSystem := do
  let fs ← loadWay fs path
  try
    let root ← IO.FS.realPath ((fs.absolute? path).getD path).display
    if (← root.metadata).type matches .dir then
      loadDirectory fs root.toString (place root.toString)
    else return fs
  catch _ => return fs

/-- Notes the tools that are on the search path. -/
def loadTools (fs : FileSystem) (search : List Path) : IO FileSystem := do
  let mut fs := fs
  for directory in search do
    try
      let file := (← IO.FS.realPath directory.display) / Cargo.toolName
      if (← file.metadata).type matches .file then
        fs := fs.put (place directory.display ++ place Cargo.toolName)
          (.file .all FileSystem.nativeMark) trivial
    catch _ => pure ()
  return fs

def watched : List String :=
  ["NO_COLOR", "FORCE_COLOR", "CLICOLOR", "CLICOLOR_FORCE", "COLORTERM", "TERM", "TERM_PROGRAM",
    "IGNORE_IS_TERMINAL", "CI", "NODE", "SNAFU_RAW_ERROR_MESSAGES"] ++ ColorSupport.serviceVariables

def environment : IO Environment :=
  watched.filterMapM fun name => do
    return (← IO.getEnv name).map fun value => (Utf8.encode name, Utf8.encode value)

def search : IO (List Path) := do
  return ((← IO.getEnv "PATH").getD "").splitOn ":" |>.map .ofString

/-- Waits for what does not happen. -/
partial def wait : IO Unit := do
  IO.sleep 1000
  wait

/-- A launcher that starts nothing. -/
def launcher : Launcher Unit := fun _ s => (s, .error (.system 38))

def run (tool : Tool) (arguments : List String) : IO UInt32 := do
  let here := place (← IO.currentDir).toString
  let bare : FileSystem :=
    ⟨.directory .all [], ⟨here, []⟩, false, ⟨List.nodup_nil, trivial⟩⟩
  let arguments := arguments.map Utf8.encode
  let roots := match CommandLine.parse tool arguments with
    | .ok options => options.roots
    | .error _ => []
  let search ← search
  let fs ← roots.foldlM loadTree (putDirectory bare .all here)
  let fs ← loadTools fs search
  if tool.waits fs arguments then wait
  let finish := (tool.run fs search (← environment) launcher arguments ()).2
  (← IO.getStdout).write ⟨finish.output.toArray⟩
  IO.eprint finish.diagnostics
  return UInt32.ofNat finish.status

end TreeCompare.Disk

def main (arguments : List String) : IO UInt32 := do
  let tools := [Tool.treeDiff, Tool.testWithLogs]
  match arguments with
  | [] => pure ()
  | word :: rest =>
      if let some tool := tools.find? (·.name = word) then
        return (← Disk.run tool rest)
  IO.eprintln ("The first argument names a tool: " ++ ", ".intercalate (tools.map Tool.name))
  return 2
