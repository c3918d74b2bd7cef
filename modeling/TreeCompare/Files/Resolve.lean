import TreeCompare.Files.IoError
import TreeCompare.Files.Tree

/-!
# Finding the object that a path names

A path is followed from a directory one step at a time. Each step needs the
right to search the directory it is taken in, `..` leads to the directory that
was left, and a link is replaced by its target. At most forty links are
followed. The sizes of paths and names have limits of their own.

The working directory may have been deleted. It is a directory still, but an empty
one that nothing can be put into, and it has no place any more. The way up from it
leads to the directory that held it.
-/
namespace TreeCompare

/-- Where relative paths begin: at a place in the tree or, if the working directory has
been deleted, at the last of the directories that are gone from below this place. Of
each of these its name and mode are kept, the innermost first. -/
structure WorkingDirectory where
  place : List Name
  deleted : List (Name × Mode)
deriving DecidableEq

/-- The place of a working directory that still has one. -/
def WorkingDirectory.place? (w : WorkingDirectory) : Option (List Name) :=
  if w.deleted.isEmpty then some w.place else none

/-- A file tree as one process sees it. -/
structure FileSystem where
  top : Node
  workingDirectory : WorkingDirectory
  privileged : Bool
  distinct : top.Distinct

/-- What is done with one piece of a path. A slash at the end asks that the
object reached is a directory. -/
inductive Step
  | root
  | current
  | parent
  | name (n : Name)
  | directory
deriving DecidableEq

/-- Whether a step goes to an entry of a directory by its name. -/
def Step.isNamed : Step → Bool
  | .name _ => true
  | _ => false

/-- What a path is followed for: the object at its end, the entry there even if it
is a link, the place of the object, or a file that may have to be created. -/
inductive Purpose
  | object
  | entry
  | place
  | creation
deriving DecidableEq

/-- The way from the top of a tree to an object, the last step first. -/
abbrev Trail := List (Name × Node)

/-- How far a path leads without following a link. -/
inductive Walk
  | reached (trail : Trail)
  | link (trail : Trail) (target : Path) (rest : List Step)
  | absent (trail : Trail) (missing : Name) (rest : List Step)
  | failed (error : IoError)

def Trail.names (trail : Trail) : List Name := (trail.map (·.1)).reverse

def Trail.size (trail : Trail) : Nat :=
  trail.foldr (fun e size => e.1.bytes.length + 1 + size) 0

def Step.ofPiece? (piece : List UInt8) : Option Step :=
  if piece = dot then some .current
  else if piece = dotDot then some .parent
  else if h : ValidName piece then some (.name ⟨piece, h⟩)
  else none

def Path.steps (path : Path) : List Step :=
  (if path.isAbsolute then [.root] else [])
    ++ (split path.bytes).filterMap Step.ofPiece?
    ++ (if path.endsWithSlash then [.directory] else [])

namespace FileSystem

def pathLimit : Nat := 4095
def nameLimit : Nat := 255

/-- How many links are followed on the way to one object. -/
def linkLimit : Nat := 40

def here (fs : FileSystem) : Trail → Node
  | [] => fs.top
  | (_, node) :: _ => node

/-- Whether a step may be taken in a directory. For a place alone, `.` and `..` are
taken without looking into the directory. -/
def maySearch (fs : FileSystem) (purpose : Purpose) (mode : Mode) (step : Step) : Bool :=
  fs.privileged || mode.execute || (purpose == .place && !step.isNamed)

/-- Whether a name is too long to be looked up. For a place the path to it counts too. -/
def tooLong (purpose : Purpose) (trail : Trail) (name : Name) : Bool :=
  nameLimit < name.bytes.length
    || (purpose == .place && pathLimit < trail.size + name.bytes.length + 1)

/-- Follows steps up to the first link that is not the object itself. -/
def walk (fs : FileSystem) (purpose : Purpose) : Trail → List Step → Walk
  | trail, [] => .reached trail
  | _, .root :: rest => walk fs purpose [] rest
  | trail, step :: rest =>
      match fs.here trail with
      | .directory mode entries =>
          match step with
          | .directory => walk fs purpose trail rest
          | step =>
              if !fs.maySearch purpose mode step then .failed .permissionDenied
              else match step with
                | .parent => walk fs purpose trail.tail rest
                | .name name =>
                    if purpose = .creation ∧ rest = [.directory] then .failed .isADirectory
                    else if tooLong purpose trail name then .failed .nameTooLong
                    else match Entries.find? entries name with
                      | none => .absent trail name rest
                      | some (.link target) =>
                          if rest.isEmpty && purpose == .entry then
                            .reached ((name, .link target) :: trail)
                          else .link trail target rest
                      | some node => walk fs purpose ((name, node) :: trail) rest
                | _ => walk fs purpose trail rest
      | _ => .failed .notADirectory

/-- Follows steps and up to `links` links; an empty target leads nowhere. -/
def chase (fs : FileSystem) (purpose : Purpose) :
    (links : Nat) → Trail → List Step → Walk
  | links, trail, steps =>
      match fs.walk purpose trail steps, links with
      | .link _ _ _, 0 => .failed .tooManyLinks
      | .link trail target rest, links + 1 =>
          if target.bytes.isEmpty then .failed .notFound
          else chase fs purpose links trail (target.steps ++ rest)
      | walk, _ => walk

/-- The trail to a place, whatever the permissions on the way. -/
def trailTo (fs : FileSystem) (names : List Name) : Option Trail :=
  names.foldlM (fun trail name =>
    match fs.here trail with
    | .directory _ entries => (Entries.find? entries name).map fun node => (name, node) :: trail
    | _ => none) []

/-- What stands where a directory was deleted, for those who are in it. -/
def vacant (d : Name × Mode) : Name × Node := (d.1, .directory d.2 [])

/-- The trail to where a path begins. -/
def base (fs : FileSystem) (path : Path) : Option Trail :=
  if path.isAbsolute then some []
  else (fs.trailTo fs.workingDirectory.place).map fun trail =>
    fs.workingDirectory.deleted.map vacant ++ trail

/-- Whether steps that begin in deleted directories look for a name in one of them. It is
not there, however long it is, and cannot be created. -/
def strays (fs : FileSystem) (purpose : Purpose) : List (Name × Mode) → List Step → Bool
  | d :: above, step :: rest =>
      if step = .directory then strays fs purpose (d :: above) rest
      else fs.maySearch purpose d.2 step && match step with
        | .name _ => !(purpose == .creation && rest == [.directory])
        | .parent => strays fs purpose above rest
        | .root => false
        | _ => strays fs purpose (d :: above) rest
  | _, _ => false

/-- Whether a path cannot be followed as the working directory has been deleted: it looks
for a name there, or for a place, which the working directory does not have. -/
def isCutOff (fs : FileSystem) (purpose : Purpose) (path : Path) : Bool :=
  !path.isAbsolute && fs.workingDirectory.place?.isNone
    && (purpose == .place || fs.strays purpose fs.workingDirectory.deleted path.steps)

/-- Follows a path of any size. -/
def follow (fs : FileSystem) (purpose : Purpose) (path : Path) : Walk :=
  if 0 ∈ path.bytes then .failed .nulInPath
  else if path.bytes.isEmpty then .failed .notFound
  else if fs.isCutOff purpose path then .failed .notFound
  else match fs.base path with
    | none => .failed .notFound
    | some trail => fs.chase purpose linkLimit trail path.steps

/-- Follows a path that an operation was given. -/
def reach (fs : FileSystem) (purpose : Purpose) (path : Path) : Walk :=
  if 0 ∉ path.bytes ∧ pathLimit < path.bytes.length then .failed .nameTooLong
  else fs.follow purpose path

def found : Walk → Except IoError Trail
  | .reached trail => .ok trail
  | .failed error => .error error
  | _ => .error .notFound

/-- The object that a path names, links followed. -/
def lookup (fs : FileSystem) (path : Path) : Except IoError Node :=
  fs.here <$> found (fs.reach .object path)

end FileSystem

end TreeCompare
