import TreeCompare.Command.Line
import TreeCompare.Fault.Console
import TreeCompare.Report.Run
import TreeCompare.Terminal.ColorSupport
import TreeCompare.Terminal.LogLine
import TreeCompare.Testing.Run

/-!
# Whole runs

A run reads its command line, does its work and ends with a status: zero after
the work or a help text, one after a failure, two after a usage error. The
report and help go to the output; log lines, the report of a failure and usage
errors go to the diagnostics.
-/
namespace TreeCompare

/-- How a run ended and what it wrote. -/
structure Finish where
  status : Nat
  output : List UInt8
  diagnostics : String
deriving DecidableEq, Repr

namespace CommandLine.Options

def text (t : Tool) (o : Options) : String :=
  let field (p : Positional) (root : Path) : String :=
    p.field ++ ": " ++ Literal.write root.bytes
  t.configurationName ++ " \x7b "
    ++ ", ".intercalate
      (List.zipWith field t.positionals o.roots ++ ["log_level: " ++ o.level.label])
    ++ " \x7d"

def event (t : Tool) (o : Options) : Log.Event :=
  ⟨.debug, t.logTarget, "Parsed CLI arguments: " ++ o.text t⟩

def root (o : Options) (i : Nat) : Path := (o.roots[i]?).getD .empty

end CommandLine.Options

namespace Tool

open CommandLine

/-- The end of a run whose command line asks for no work. -/
def stopped (t : Tool) : Stop → Finish
  | .help true => ⟨0, Utf8.encode t.longHelp, ""⟩
  | .help false => ⟨0, Utf8.encode t.shortHelp, ""⟩
  | .version => ⟨0, Utf8.encode version, ""⟩
  | .usage e => ⟨2, [], e.text t⟩

def logText (env : Environment) (level : Log.Verbosity) (events : List Log.Event) : String :=
  String.join ((events.filter level.wants).map (LogLine.write (LogLine.painted env)))

def failureText (env : Environment) (chain : List String) : String :=
  let raw := env.text? "SNAFU_RAW_ERROR_MESSAGES" == some "1"
  "Error: " ++ (if raw then Console.rawReport chain else Console.report chain) ++ "\n"

/-- The end of a run that has begun, with the chain of messages if it failed. -/
def finish (t : Tool) (env : Environment) (o : Options) (events : List Log.Event)
    (output : List UInt8) (failure : Option (List String)) : Finish :=
  let lines := logText env o.level (o.event t :: events)
  match failure with
  | none => ⟨0, output, lines⟩
  | some chain => ⟨1, output, lines ++ failureText env chain⟩

def failure? {ε α : Type} (chain : ε → List String) : Except ε α → Option (List String)
  | .ok _ => none
  | .error e => some (chain e)

def compareTrees (fs : FileSystem) (env : Environment) (o : Options) : Finish :=
  let done := Report.run fs (o.root 0) (o.root 1) (ColorSupport.style env)
    (ColorSupport.colors env) .unlimited
  finish .treeDiff env o done.events done.state.written
    (failure? (CompareError.chain fs) done.result)

/-- Runs the tests of the project in the working directory. -/
def runTests {σ : Type} (fs : FileSystem) (search : List Path) (env : Environment)
    (launch : Launcher σ) (o : Options) (s : σ) : σ × Finish :=
  let done := Cargo.runProject fs search env launch s
  (done.state, finish .testWithLogs env o done.events [] (failure? TestError.chain done.result))

/-- A whole run with the arguments after the program's name. -/
def run {σ : Type} (t : Tool) (fs : FileSystem) (search : List Path) (env : Environment)
    (launch : Launcher σ) (arguments : List (List UInt8)) (s : σ) : σ × Finish :=
  match t, CommandLine.parse t arguments with
  | t, .error stop => (s, t.stopped stop)
  | .treeDiff, .ok o => (s, compareTrees fs env o)
  | .testWithLogs, .ok o => runTests fs search env launch o s

/-- Whether a run is never over: a comparison may wait for a file, see `Report.waits`. -/
def waits (t : Tool) (fs : FileSystem) (arguments : List (List UInt8)) : Bool :=
  match t, CommandLine.parse t arguments with
  | .treeDiff, .ok o => Report.waits fs (o.root 0) (o.root 1)
  | _, _ => false

end Tool

end TreeCompare
