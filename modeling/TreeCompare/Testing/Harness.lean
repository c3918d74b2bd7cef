import TreeCompare.Log
import TreeCompare.Process.Basic
import TreeCompare.Testing.Listing

/-!
# Running tests one by one

A harness lists tests and runs one of them at a time; what it does may depend
on its state and change it. A run takes one listing and then runs its tests in
order, up to the first that fails.
-/
namespace TreeCompare

inductive HarnessError
  | programNotFound (program : String) (cause : SearchError)
  | spawn (command : String) (cause : IoError)
  | listingFailed (command : String) (status : Int)
  | testFailed (name : String) (status : Int)
deriving DecidableEq, Repr

def HarnessError.message : HarnessError → String
  | .programNotFound program _ => "Could not find '" ++ program ++ "' on the search path"
  | .spawn command _ => "Failed to run '" ++ command ++ "'"
  | .listingFailed command status =>
      "Listing tests with '" ++ command ++ "' failed with exit code " ++ Numeral.signed status
  | .testFailed name status =>
      "Test '" ++ name ++ "' failed with exit code " ++ Numeral.signed status

def HarnessError.chain (e : HarnessError) : List String :=
  e.message :: match e with
    | .programNotFound _ cause => [cause.message]
    | .spawn _ cause => [cause.message]
    | .listingFailed _ _ | .testFailed _ _ => []

/-- Why a run ended early. -/
inductive RunError
  | listing (cause : HarnessError)
  | test (name : String) (cause : HarnessError)
deriving DecidableEq, Repr

def RunError.message : RunError → String
  | .listing _ => "Failed to list tests"
  | .test name _ => "Stopped after test '" ++ name ++ "'"

def RunError.chain (e : RunError) : List String :=
  e.message :: match e with
    | .listing cause | .test _ cause => cause.chain

/-- Something that lists tests and runs them, with states of type `σ`. -/
structure Harness (σ : Type) where
  list : Action σ HarnessError String
  run : String → Action σ HarnessError Unit

namespace Harness

variable {σ : Type}

def target : String := "treecheck::test_runner::test_log_runner"

/-- Runs tests in order up to the first that fails. -/
def runTests (h : Harness σ) : List String → Action σ RunError Unit
  | [] => pure ()
  | name :: rest => do
      Action.log .info target ("Running test '" ++ name ++ "'")
      (h.run name).mapError (.test name)
      runTests h rest

/-- Lists the tests and runs them all; the names of the tests that ran. -/
def runAll (h : Harness σ) : Action σ RunError (List String) := do
  let listing ← h.list.mapError .listing
  let tests := Listing.parse listing
  Action.log .debug target ("Found " ++ Numeral.decimal tests.length ++ " tests")
  runTests h tests
  return tests

end Harness

end TreeCompare
