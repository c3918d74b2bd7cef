import TreeCompare.Text.Utf8

/-!
# Environment variables

Variables have any bytes as their names and values. A value that is not text
counts as missing where a text is wanted.
-/
namespace TreeCompare

/-- The variables of a process. -/
abbrev Environment := List (List UInt8 × List UInt8)

namespace Environment

def get? (env : Environment) (name : List UInt8) : Option (List UInt8) := env.lookup name

def text? (env : Environment) (name : String) : Option String :=
  (get? env (Utf8.encode name)).bind Utf8.decode?

def has (env : Environment) (name : String) : Bool := (text? env name).isSome

/-- The environment with one variable set, whatever it was before. -/
def set (env : Environment) (name value : List UInt8) : Environment :=
  (name, value) :: env.filter (·.1 ≠ name)

end Environment

end TreeCompare
