import TreeCompare.Files.Resolve

/-!
# Looking at files and changing them

The questions that a scan asks of a file system, what reading an object yields,
the canonical form of a path, and the changes that can happen between scans:
writing a whole file, removing one and changing a mode.
-/
namespace TreeCompare

/-- What reading an opened object to its end yields; a directory cannot be read. A pipe
yields nothing once somebody has opened its other end and closed it again; as long as
nobody does, the reading is never over, see `FileSystem.waits`. -/
def Node.read : Node → Except IoError (List UInt8)
  | .file _ content => .ok content
  | .directory _ _ => .error .isADirectory
  | _ => .ok []

namespace FileSystem

/-- The sort of the object that a path names. The empty path is the working
directory. -/
def kind (fs : FileSystem) (path : Path) : Except IoError Kind :=
  if path.bytes.isEmpty then .ok .directory else Node.kind <$> fs.lookup path

/-- Whether a path names a directory; a path that cannot be followed does not. -/
def isDirectory (fs : FileSystem) (path : Path) : Bool :=
  match fs.lookup path with
  | .ok node => node.kind == .directory
  | .error _ => false

/-- The entries of a directory in the order it keeps them. -/
def list (fs : FileSystem) (path : Path) : Except IoError (List (Name × Kind)) := do
  match ← fs.lookup path with
  | .directory mode entries =>
      if fs.privileged || mode.read then .ok (entries.map fun e => (e.1, e.2.kind))
      else .error .permissionDenied
  | _ => .error .notADirectory

/-- Whether an ordinary user may read an object; a link has no say in it. -/
def mayRead (fs : FileSystem) : Node → Bool
  | .file mode _ | .directory mode _ | .special mode _ => fs.privileged || mode.read
  | .link _ => true

/-- Opens an object to read it. Nothing but a regular file, a directory or the null device
is sure to be open at once: a pipe is not before somebody opens its other end. -/
def «open» (fs : FileSystem) (path : Path) : Except IoError Node := do
  let node ← fs.lookup path
  if !fs.mayRead node then .error .permissionDenied
  else match node with
    | .special _ .socket => .error .noSuchDevice
    | node => .ok node

/-- Whether opening a path and reading what it names is never over: it is a pipe, and in a
file system that nobody else uses nobody opens its other end. -/
def waits (fs : FileSystem) (path : Path) : Bool :=
  match fs.open path with
  | .ok (.special _ .pipe) => true
  | _ => false

/-- The place that a path names, links followed. The size of the path does not matter. -/
def canonicalNames (fs : FileSystem) (path : Path) : Except IoError (List Name) :=
  Trail.names <$> found (fs.follow .place path)

def canonicalize (fs : FileSystem) (path : Path) : Except IoError Path :=
  Path.ofNames <$> fs.canonicalNames path

/-- Whether entries of the directory at the end of a trail may be changed. -/
def mayChange (fs : FileSystem) (trail : Trail) : Bool :=
  match fs.here trail with
  | .directory mode _ => fs.privileged || (mode.write && mode.execute)
  | _ => false

def put (fs : FileSystem) (names : List Name) (node : Node) (distinct : node.Distinct) :
    FileSystem :=
  { fs with top := node.put names fs.top, distinct := distinct.put names fs.distinct }

def erase (fs : FileSystem) (names : List Name) : FileSystem :=
  { fs with top := Node.erase names fs.top, distinct := fs.distinct.erase names }

/-- The file system with another mode for the object at a place. -/
def restrict (fs : FileSystem) (names : List Name) (mode : Mode) : FileSystem :=
  { fs with top := Node.restrict mode names fs.top, distinct := fs.distinct.restrict mode names }

/-- Creates a file or replaces its whole content; a device keeps nothing of it, and neither
does a pipe whose other end is open. -/
def write (fs : FileSystem) (path : Path) (content : List UInt8) :
    Except IoError FileSystem :=
  match fs.reach .creation path with
  | .failed error => .error error
  | .link _ _ _ => .error .notFound
  | .absent trail name rest =>
      if !rest.isEmpty then .error .notFound
      else if fs.mayChange trail then
        .ok (fs.put (Trail.names trail ++ [name]) (.file .plain content) trivial)
      else .error .permissionDenied
  | .reached trail =>
      match fs.here trail with
      | .directory _ _ => .error .isADirectory
      | .file mode _ =>
          if fs.privileged || mode.write then
            .ok (fs.put (Trail.names trail) (.file mode content) trivial)
          else .error .permissionDenied
      | .special mode kind =>
          if !(fs.privileged || mode.write) then .error .permissionDenied
          else if kind = .socket then .error .noSuchDevice
          else .ok fs
      | .link _ => .ok fs

/-- Removes an entry that is no directory; a link is removed itself. -/
def remove (fs : FileSystem) (path : Path) : Except IoError FileSystem := do
  let trimmed : Path := ⟨(path.bytes.reverse.dropWhile (· = slash)).reverse⟩
  let trail ← found (if trimmed.bytes.isEmpty then fs.reach .entry path else fs.reach .entry trimmed)
  match fs.here trail with
  | .directory _ _ => .error .isADirectory
  | _ =>
      if path.endsWithSlash then .error .notADirectory
      else if fs.mayChange trail.tail then .ok (fs.erase (Trail.names trail))
      else .error .permissionDenied

end FileSystem

end TreeCompare
