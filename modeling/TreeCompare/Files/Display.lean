import TreeCompare.Files.Access
import TreeCompare.Path.Lexical

/-!
# Paths for people

A message shows a path in its canonical form if it leads to an object. If it
does not, the path is made absolute and brought to its lexical normal form; a
path that cannot be made absolute is only normalized.
-/
namespace TreeCompare.FileSystem

/-- A path with the working directory in front. Nothing can be put in front of
the empty path, and a deleted working directory has no path. -/
def absolute? (fs : FileSystem) (path : Path) : Option Path :=
  if path.bytes.isEmpty then none
  else if path.isAbsolute then some path
  else fs.workingDirectory.place?.map fun names => (Path.ofNames names).join path

/-- The path that stands for `path` in messages. -/
def bestEffort (fs : FileSystem) (path : Path) : Path :=
  match fs.canonicalize path with
  | .ok canonical => canonical
  | .error _ => ((fs.absolute? path).getD path).normalize

def describe (fs : FileSystem) (path : Path) : String := (fs.bestEffort path).display

end TreeCompare.FileSystem
