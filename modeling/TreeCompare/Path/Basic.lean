import TreeCompare.Text.Utf8

/-!
# Paths

A path is any byte string. It is read as components: repeated and trailing
slashes and inner `.` components do not count, a leading `.` does, and `..` is
kept. Two paths are the same if their components are. Nothing here looks at a
file system.
-/
namespace TreeCompare

def slash : UInt8 := 0x2f

def dot : List UInt8 := [0x2e]

def dotDot : List UInt8 := [0x2e, 0x2e]

/-- What a directory entry can be called: not empty, without a slash, and
neither `.` nor `..`. -/
def ValidName (bytes : List UInt8) : Prop :=
  bytes ≠ [] ∧ slash ∉ bytes ∧ bytes ≠ dot ∧ bytes ≠ dotDot

instance (bytes : List UInt8) : Decidable (ValidName bytes) :=
  inferInstanceAs (Decidable (_ ∧ _))

/-- The name of a directory entry. -/
structure Name where
  bytes : List UInt8
  valid : ValidName bytes
deriving DecidableEq

/-- One step of a path. -/
inductive Component
  | root
  | current
  | parent
  | name (n : Name)
deriving DecidableEq

/-- A path as it is written. -/
structure Path where
  bytes : List UInt8
deriving DecidableEq, Repr, Inhabited

namespace Path

def empty : Path := ⟨[]⟩

def ofString (text : String) : Path := ⟨Utf8.encode text⟩

def ofName (name : Name) : Path := ⟨name.bytes⟩

def display (path : Path) : String := Utf8.lossy path.bytes

def isAbsolute (path : Path) : Bool := path.bytes.head? == some slash

def endsWithSlash (path : Path) : Bool := path.bytes.getLast? == some slash

/-- The pieces of a byte string between its slashes. -/
def split : List UInt8 → List (List UInt8)
  | [] => [[]]
  | b :: rest =>
      if b = slash then [] :: split rest
      else match split rest with
        | [] => [[b]]
        | piece :: pieces => (b :: piece) :: pieces

/-- What a piece between slashes stands for; an empty piece and `.` stand for nothing. -/
def component? (piece : List UInt8) : Option Component :=
  if piece = dotDot then some .parent
  else if h : ValidName piece then some (.name ⟨piece, h⟩)
  else none

def components (path : Path) : List Component :=
  let inner := (split path.bytes).filterMap component?
  if path.isAbsolute then .root :: inner
  else if (split path.bytes).head? = some dot then .current :: inner
  else inner

/-- Equality of paths as places: by components, not by spelling. -/
def Same (p q : Path) : Prop := p.components = q.components

instance (p q : Path) : Decidable (Same p q) :=
  inferInstanceAs (Decidable (p.components = q.components))

/-- A path read from the directory `base`: an absolute path stands for itself. -/
def join (base path : Path) : Path :=
  if path.isAbsolute then path
  else if base.bytes.isEmpty || base.endsWithSlash then ⟨base.bytes ++ path.bytes⟩
  else ⟨base.bytes ++ slash :: path.bytes⟩

end Path

def Component.path : Component → Path
  | .root => ⟨[slash]⟩
  | .current => ⟨dot⟩
  | .parent => ⟨dotDot⟩
  | .name n => .ofName n

def Path.ofComponents (components : List Component) : Path :=
  components.foldl (fun path c => path.join c.path) .empty

/-- The absolute path that leads through directories of these names. -/
def Path.ofNames (names : List Name) : Path :=
  .ofComponents (.root :: names.map .name)

end TreeCompare
