import TreeCompare.Log

/-!
# The two tools

What the tools are called, what they take and what their help says.
-/
namespace TreeCompare

inductive Tool
  | treeDiff
  | testWithLogs
deriving DecidableEq, Repr

/-- A positional argument: its name in the log, how the usage shows it and what it is. -/
structure Positional where
  field : String
  shown : String
  meaning : String

namespace Tool

def name : Tool → String
  | .treeDiff => "tree-diff"
  | .testWithLogs => "test-with-logs"

def about : Tool → String
  | .treeDiff =>
      "Hash every file under two directory trees and report what the destination lost or changed"
  | .testWithLogs => "Run each test of the current cargo project on its own with RUST_LOG=trace"

def positionals : Tool → List Positional
  | .treeDiff =>
      [⟨"source", "<SOURCE>", "The tree that is expected to be complete"⟩,
        ⟨"dest", "<DEST>", "The tree that is checked against the source"⟩]
  | .testWithLogs => []

def version : String := "treecheck 0.1.0\n"

/-- Where the log says that the events of a tool's own come from. -/
def logTarget : Tool → String
  | .treeDiff => "tree_diff"
  | .testWithLogs => "test_with_logs"

def configurationName : Tool → String
  | .treeDiff => "TreeDiffCli"
  | .testWithLogs => "TestLogsCli"

/-- The option that both tools have, and the flags, by their long names. -/
def levelOption : String := "log-level"
def helpFlag : String := "help"
def versionFlag : String := "version"

def longNames : List String := [levelOption, helpFlag, versionFlag]

def levelShown : String := "--log-level <LOG_LEVEL>"

def levelWords : String := ", ".intercalate (Log.Verbosity.all.map Log.Verbosity.word)

/-- The usage with the given options in front of the positional arguments. -/
def usage (t : Tool) (options : List String) : String :=
  "Usage: " ++ " ".intercalate (t.name :: options ++ t.positionals.map (·.shown))

def fullUsage (t : Tool) : String := t.usage ["[OPTIONS]"]

def shortHelp (t : Tool) : String :=
  let width := (t.positionals.map (·.shown.length)).foldl max 0
  let line (p : Positional) : String :=
    "  " ++ p.shown ++ String.ofList (List.replicate (width - p.shown.length) ' ') ++ "  "
      ++ p.meaning ++ "\n"
  t.about ++ "\n\n" ++ t.fullUsage ++ "\n\n"
    ++ (if t.positionals.isEmpty then ""
      else "Arguments:\n" ++ String.join (t.positionals.map line) ++ "\n")
    ++ "Options:\n  -l, --log-level <LOG_LEVEL>  [default: warn] [possible values: "
    ++ levelWords ++ "]\n  -h, --help                   Print help (see more with '--help')\n"
    ++ "  -V, --version                Print version\n"

def longHelp (t : Tool) : String :=
  let indent := "          "
  let paragraph (p : Positional) : String :=
    "  " ++ p.shown ++ "\n" ++ indent ++ p.meaning ++ "\n\n"
  let value (v : Log.Verbosity) : String :=
    indent ++ "- " ++ v.word
      ++ (if v = .silent then ": No subscriber is installed at all" else "") ++ "\n"
  t.about ++ "\n\n" ++ t.fullUsage ++ "\n\n"
    ++ (if t.positionals.isEmpty then ""
      else "Arguments:\n" ++ String.join (t.positionals.map paragraph))
    ++ "Options:\n  -l, --log-level <LOG_LEVEL>\n" ++ indent ++ "Possible values:\n"
    ++ String.join (Log.Verbosity.all.map value)
    ++ indent ++ "\n" ++ indent ++ "[default: warn]\n\n"
    ++ "  -h, --help\n" ++ indent ++ "Print help (see a summary with '-h')\n\n"
    ++ "  -V, --version\n" ++ indent ++ "Print version\n"

end Tool

end TreeCompare
