import TreeCompare.Environment
import TreeCompare.Files.Access

/-!
# Programs

A program is started with arguments and an environment, writes bytes and ends
with an exit code or by a signal. A file can be started if it may be executed
and is either a native program or a script whose interpreter can be started.
A program named without a slash is looked for in the directories of the search
path; the search for a tool asks the same of each candidate that the tool's
file is regular and may be executed by somebody.
-/
namespace TreeCompare

inductive Exit
  | code (n : Int)
  | signal
deriving DecidableEq, Repr

/-- The exit code, or -1 for the end by a signal. -/
def Exit.status : Exit → Int
  | .code n => n
  | .signal => -1

def Exit.success (e : Exit) : Bool := e == .code 0

/-- What a program is started with. -/
structure Invocation where
  program : Path
  arguments : List String
  environment : Environment
deriving DecidableEq, Repr

structure Completion where
  exit : Exit
  output : List UInt8
deriving DecidableEq, Repr

/-- Why no program was found. -/
inductive SearchError
  | noMatch
  | nothingToSearch
  | notCanonical
deriving DecidableEq, Repr

def SearchError.message : SearchError → String
  | .noMatch => "cannot find binary path"
  | .nothingToSearch => "no path to search and provided name is not an absolute path"
  | .notCanonical => "cannot canonicalize path"

/-- A world with states of type `σ` in which programs can be started. -/
abbrev Launcher (σ : Type) := Invocation → σ → σ × Except IoError Completion

namespace FileSystem

/-- The first bytes of a native program. -/
def nativeMark : List UInt8 := [0x7f, 0x45, 0x4c, 0x46]

/-- The first bytes of a script. -/
def scriptMark : List UInt8 := [0x23, 0x21]

def isBlank (b : UInt8) : Bool := b == 0x20 || b == 0x09

/-- The interpreter that the first line of a script names. An unended line may name
the empty path. -/
def interpreter? (content : List UInt8) : Option Path :=
  if scriptMark.isPrefixOf content then
    let body := content.drop scriptMark.length
    let line := body.takeWhile (· ≠ 0x0a)
    let word := (line.dropWhile isBlank).takeWhile (!isBlank ·)
    if word.isEmpty ∧ line ≠ body then none else some ⟨word⟩
  else none

/-- The file at a path if it may be executed; even a privileged process needs
the right from the file. The empty path is the working directory. -/
def executable (fs : FileSystem) (path : Path) : Except IoError (Trail × List UInt8) :=
  if path.bytes.isEmpty then .error .permissionDenied
  else do
    let trail ← found (fs.reach .object path)
    match fs.here trail with
    | .file mode content => if mode.execute then .ok (trail, content) else .error .permissionDenied
    | _ => .error .permissionDenied

/-- The place of the file that starting `path` runs. -/
def start (fs : FileSystem) (path : Path) : Except IoError (List Name) := do
  let (trail, content) ← fs.executable path
  if nativeMark.isPrefixOf content then return Trail.names trail
  match interpreter? content with
  | none => .error .noExecutableFormat
  | some interpreter =>
      let _ ← fs.executable interpreter
      return Trail.names trail

/-- Tries candidates in order. A candidate that is missing or may not be executed
is passed over; if none is left, a denial is the error, else the last error. -/
def startFirst (fs : FileSystem) (refusal : IoError) :
    List Path → Except IoError (List Name)
  | [] => .error refusal
  | path :: rest =>
      match fs.start path with
      | .ok place => .ok place
      | .error e =>
          if e ∈ [.permissionDenied, .notFound, .notADirectory] then
            startFirst fs (if refusal = .permissionDenied then refusal else e) rest
          else .error e

def program (fs : FileSystem) (search : List Path) (path : Path) :
    Except IoError (List Name) :=
  if path.bytes.isEmpty then .error .notFound
  else if slash ∈ path.bytes then fs.start path
  else fs.startFirst .notFound (search.map (·.join path))

/-- Looks for a tool on the search path; the tool is named by the directory that
holds it, links not followed in the name. -/
def locate (fs : FileSystem) (search : List Path) (tool : Path) : Except SearchError Path :=
  if search.isEmpty then .error .nothingToSearch
  else
    match (search.map (·.join tool)).find? fun p => (fs.executable p).isOk with
    | some path => .ok path
    | none => .error .noMatch

end FileSystem

end TreeCompare
