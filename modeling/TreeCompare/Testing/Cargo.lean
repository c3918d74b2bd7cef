import TreeCompare.Testing.Harness

/-!
# Tests of a cargo project

The harness that lists the tests of the project in the working directory with
`cargo test -- --list` and runs one with `cargo test <name> -- --nocapture
--exact`, with `RUST_LOG=trace` in its environment. Any exit but the exit code
zero is a failure.
-/
namespace TreeCompare.Cargo

def target : String := "treecheck::test_runner::cargo_harness"

def toolName : String := "cargo"

def verbosityVariable : String := "RUST_LOG"
def verbosityValue : String := "trace"

def listArguments : List String := ["test", "--", "--list"]

def runArguments (name : String) : List String :=
  ["test", name, "--", "--nocapture", "--exact"]

def describe (program : Path) (arguments : List String) : String :=
  arguments.foldl (fun text argument => text ++ " " ++ argument) program.display

/-- Starts a program. A zero byte in its name or in an argument cannot be passed on. -/
def spawn {σ : Type} (launch : Launcher σ) (i : Invocation) :
    Action σ HarnessError Completion := Action.ofStep fun s =>
  let failed (e : IoError) : HarnessError := .spawn (describe i.program i.arguments) e
  if 0 ∈ i.program.bytes || i.arguments.any (·.toList.contains '\x00') then
    (s, .error (failed .nulInArgument))
  else
    let after := launch i s
    (after.1, after.2.mapError failed)

/-- Lists the tests; only what the program writes to its output counts. -/
def list {σ : Type} (launch : Launcher σ) (env : Environment) (program : Path) :
    Action σ HarnessError String := do
  let command := describe program listArguments
  Action.log .debug target ("Listing tests with '" ++ command ++ "'")
  let done ← spawn launch ⟨program, listArguments, env⟩
  if done.exit.success then return Utf8.lossy done.output
  else Action.ofLogged (Logged.quiet (.error (.listingFailed command done.exit.status)))

def run {σ : Type} (launch : Launcher σ) (env : Environment) (program : Path) (name : String) :
    Action σ HarnessError Unit := do
  let arguments := runArguments name
  Action.log .debug target ("Running '" ++ describe program arguments ++ "' with "
    ++ verbosityVariable ++ "=" ++ verbosityValue)
  let done ← spawn launch
    ⟨program, arguments, env.set (Utf8.encode verbosityVariable) (Utf8.encode verbosityValue)⟩
  if done.exit.success then return ()
  else Action.ofLogged (Logged.quiet (.error (.testFailed name done.exit.status)))

def harness {σ : Type} (launch : Launcher σ) (env : Environment) (program : Path) :
    Harness σ where
  list := list launch env program
  run := run launch env program

def locate (fs : FileSystem) (search : List Path) : Logged HarnessError Path := do
  let program ← Logged.quiet ((fs.locate search (.ofString toolName)).mapError
    (.programNotFound toolName))
  Logged.log .debug target ("Using cargo at " ++ program.display)
  return program

end TreeCompare.Cargo
