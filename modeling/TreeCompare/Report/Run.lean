import TreeCompare.Report.Rendering
import TreeCompare.Snapshot.Scan
import TreeCompare.Text.Literal

/-!
# Comparing two trees

A run scans the source, then the destination, and only then writes the report.
-/
namespace TreeCompare

/-- Why two trees could not be compared. -/
inductive CompareError
  | source (cause : ScanError)
  | dest (cause : ScanError)
  | output (cause : IoError)
deriving DecidableEq, Repr

def CompareError.message : CompareError → String
  | .source _ => "Critical failure encountered while scanning the source tree"
  | .dest _ => "Critical failure encountered while scanning the destination tree"
  | .output _ => "Failed to write the diff report"

def CompareError.chain (fs : FileSystem) (e : CompareError) : List String :=
  e.message :: match e with
    | .source cause | .dest cause => cause.chain fs
    | .output cause => [cause.message]

namespace Report

def runTarget : String := "treecheck::application::application"

def configuration (source dest : Path) : String :=
  "DiffConfig \x7b source_root: " ++ Literal.write source.bytes ++ ", dest_root: "
    ++ Literal.write dest.bytes ++ " \x7d"

/-- Compares the trees under two roots and writes the report to a sink. -/
def run (fs : FileSystem) (source dest : Path) (style : Style) (colors : Bool) :
    Action Sink CompareError Report := do
  Action.log .debug runTarget ("Diff configuration: " ++ configuration source dest)
  let s ← Action.ofLogged ((Snapshot.scan fs source).mapError .source)
  let d ← Action.ofLogged ((Snapshot.scan fs dest).mapError .dest)
  let report := compare s d
  Action.log report.event.severity report.event.target report.event.message
  (Action.ofStep (report.writeTo style colors)).mapError .output
  if report.hasDifferences then
    Action.log .info runTarget "Source and destination trees differ"
  return report

/-- Whether a run is never over, as one of its scans is not. -/
def waits (fs : FileSystem) (source dest : Path) : Bool :=
  match (Snapshot.scanStop fs source).result? with
  | none => true
  | some (.error _) => false
  | some (.ok _) => (Snapshot.scanStop fs dest).result?.isNone

end Report

end TreeCompare
