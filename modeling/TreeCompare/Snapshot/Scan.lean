import TreeCompare.Files.Display
import TreeCompare.Log
import TreeCompare.Snapshot.Basic

/-!
# Scanning a tree

A scan lists directories one after the other. Each listing is sorted by name
and split: files are read at once, and the directories in it are listed next,
before any that was found earlier. A link that leads to a directory is left
alone, any other link is read as a file, and special files are left alone. The
first error ends the scan.

A scan lists a directory at most once, so as many listings are allowed as the
file system has directories, and one more for a root that passes for a directory
but is none of them.

A link can lead to a pipe, and then the reading is never over and neither is the
scan, see `scanStop`. What `scan` says of it is what it would come to if somebody
opened the other end of the pipe and closed it again.
-/
namespace TreeCompare

/-- Why a file could not be fingerprinted. -/
inductive FileError
  | «open» (path : Path) (cause : IoError)
  | read (path : Path) (cause : IoError)
deriving DecidableEq, Repr

/-- Why a tree could not be scanned. -/
inductive ScanError
  | root (path : Path) (cause : IoError)
  | rootNotDirectory (path : Path)
  | list (path : Path) (cause : IoError)
  | file (cause : FileError)
deriving DecidableEq, Repr

def FileError.message (fs : FileSystem) : FileError → String
  | .open path _ => "Failed to open " ++ fs.describe path
  | .read path _ => "Failed to read " ++ fs.describe path

def FileError.chain (fs : FileSystem) (e : FileError) : List String :=
  match e with
  | .open _ cause | .read _ cause => [e.message fs, cause.message]

def ScanError.message (fs : FileSystem) : ScanError → String
  | .root path _ => "Failed to access the root directory " ++ fs.describe path
  | .rootNotDirectory path => "The root " ++ fs.describe path ++ " is not a directory"
  | .list path _ => "Failed to list directory " ++ fs.describe path
  | .file _ => "Failed to fingerprint a file"

def ScanError.chain (fs : FileSystem) (e : ScanError) : List String :=
  e.message fs :: match e with
    | .root _ cause | .list _ cause => [cause.message]
    | .rootNotDirectory _ => []
    | .file cause => cause.chain fs

def Record.read (fs : FileSystem) (root path : Path) : Except FileError Record := do
  let file := root.join path
  let node ← (fs.open file).mapError (.open file)
  let content ← node.read.mapError (.read file)
  return ⟨path, .ofReads (Fingerprint.reads content)⟩

/-- The entries of one directory that a scan goes on with. -/
structure Listing where
  files : List Path
  directories : List Path
deriving DecidableEq, Repr

namespace Scan

def target : String := "treecheck::fingerprint::tree_snapshot"

def byName (a b : Name × Kind) : Bool := decide (a.1.bytes ≤ b.1.bytes)

/-- Adds one entry of the directory `relative` to a listing. -/
def classify (fs : FileSystem) (root relative : Path) (listing : Listing)
    (entry : Name × Kind) : Logged ScanError Listing :=
  let path := relative.join (.ofName entry.1)
  let withFile : Listing := { listing with files := listing.files ++ [path] }
  match entry.2 with
  | .directory => pure { listing with directories := listing.directories ++ [path] }
  | .file => pure withFile
  | .link =>
      if fs.isDirectory ((root.join relative).join (.ofName entry.1)) then do
        Logged.log .debug target ("Not following directory link " ++ path.display)
        return listing
      else pure withFile
  | .special => do
      Logged.log .debug target ("Skipping special file " ++ path.display)
      return listing

def list (fs : FileSystem) (root relative : Path) : Logged ScanError Listing := do
  let directory := root.join relative
  let entries ← Logged.quiet ((fs.list directory).mapError (.list directory))
  (entries.mergeSort byName).foldlM (classify fs root relative) ⟨[], []⟩

def readFiles (fs : FileSystem) (root : Path) (s : Snapshot) :
    List Path → Logged ScanError Snapshot
  | [] => pure s
  | path :: rest => do
      let record ← Logged.quiet ((Record.read fs root path).mapError .file)
      readFiles fs root (s.insert record) rest

/-- Lists up to `budget` directories, beginning with the pending ones in order. -/
def run (fs : FileSystem) (root : Path) :
    (budget : Nat) → (pending : List Path) → Snapshot → Logged ScanError Snapshot
  | _, [], s => pure s
  | 0, _ :: _, s => pure s
  | budget + 1, relative :: pending, s => do
      let listing ← list fs root relative
      let s ← readFiles fs root s listing.files
      run fs root budget (listing.directories ++ pending) s

/-- The first of some files, read one after the other, whose reading is never over. -/
def waiting? (fs : FileSystem) (root : Path) : List Path → Option Path
  | [] => none
  | path :: rest =>
      if fs.waits (root.join path) then some path
      else if (Record.read fs root path).isOk then waiting? fs root rest
      else none

/-- Where a scan comes to: it ends, or it waits for a file and never does. -/
inductive Stop
  | ends (result : Except ScanError Snapshot)
  | waits (file : Path)

def Stop.result? : Stop → Option (Except ScanError Snapshot)
  | .ends result => some result
  | .waits _ => none

def reading (fs : FileSystem) (root : Path) (s : Snapshot) (files : List Path) : Stop :=
  match waiting? fs root files with
  | some file => .waits file
  | none => .ends (readFiles fs root s files).result

/-- What comes of one turn of the loop: the directories that are pending next and the
snapshot with the files read, unless the scan stops. -/
inductive Turn
  | taken (pending : List Path) (s : Snapshot)
  | stops (stop : Stop)

/-- Lists the first of the pending directories and reads its files. -/
def turn (fs : FileSystem) (root relative : Path) (pending : List Path) (s : Snapshot) : Turn :=
  match (list fs root relative).result with
  | .error e => .stops (.ends (.error e))
  | .ok listing =>
      match reading fs root s listing.files with
      | .ends (.ok s) => .taken (listing.directories ++ pending) s
      | stop => .stops stop

/-- Takes up to `budget` turns. -/
def turns (fs : FileSystem) (root : Path) :
    (budget : Nat) → (pending : List Path) → Snapshot → Stop
  | budget + 1, relative :: pending, s =>
      match turn fs root relative pending s with
      | .taken pending s => turns fs root budget pending s
      | .stops stop => stop
  | _, _, s => .ends (.ok s)

def checkRoot (fs : FileSystem) (root : Path) : Except ScanError Unit :=
  match fs.kind root with
  | .error cause => .error (.root root cause)
  | .ok .directory => .ok ()
  | .ok _ => .error (.rootNotDirectory root)

end Scan

open Scan in
def Snapshot.scan (fs : FileSystem) (root : Path) : Logged ScanError Snapshot := do
  Logged.log .debug target ("Scanning " ++ fs.describe root)
  Logged.quiet (checkRoot fs root)
  let s ← run fs root (fs.top.directories + 1) [.empty] .empty
  Logged.log .info target ("Scanned " ++ Numeral.decimal s.size ++ " files ("
    ++ Numeral.decimal s.totalBytes ++ " bytes) under " ++ fs.describe root)
  return s

/-- Where a scan comes to. If it ends, it does so with the result of `scan`. -/
def Snapshot.scanStop (fs : FileSystem) (root : Path) : Scan.Stop :=
  match Scan.checkRoot fs root with
  | .error e => .ends (.error e)
  | .ok () => Scan.turns fs root (fs.top.directories + 1) [.empty] .empty

end TreeCompare
