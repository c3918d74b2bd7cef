import TreeCompare.Testing.Cargo

/-!
# Running a project's tests

A run looks for the tool once and then runs every test that the tool lists.
-/
namespace TreeCompare

/-- Why the tests of a project could not all be run. -/
inductive TestError
  | setup (cause : HarnessError)
  | run (cause : RunError)
deriving DecidableEq, Repr

def TestError.message : TestError → String
  | .setup _ => "Critical failure encountered while locating the test harness"
  | .run _ => "Critical failure encountered while running tests"

def TestError.chain (e : TestError) : List String :=
  e.message :: match e with
    | .setup cause => cause.chain
    | .run cause => cause.chain

/-- Runs the tests of the project in the working directory; the names of all of them. -/
def Cargo.runProject {σ : Type} (fs : FileSystem) (search : List Path) (env : Environment)
    (launch : Launcher σ) : Action σ TestError (List String) := do
  let program ← Action.ofLogged ((locate fs search).mapError .setup)
  let ran ← (harness launch env program).runAll.mapError .run
  Action.log .info "treecheck::application::application"
    ("All " ++ Numeral.decimal ran.length ++ " tests passed")
  return ran

end TreeCompare
