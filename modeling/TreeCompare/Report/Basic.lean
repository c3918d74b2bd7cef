import TreeCompare.Log
import TreeCompare.Report.Outcome

/-!
# Comparison reports

A report has one outcome for each source record, in source order, and the sizes
of both trees. What only the destination has is counted but not listed.
-/
namespace TreeCompare

/-- The numbers of files and bytes in both trees. -/
structure Summary where
  sourceCount : Nat
  destCount : Nat
  sourceBytes : Nat
  destBytes : Nat
deriving DecidableEq, Repr

def Summary.text (s : Summary) : String :=
  "Source: " ++ Numeral.decimal s.sourceCount ++ "\nDest: " ++ Numeral.decimal s.destCount
    ++ "\n" ++ Numeral.decimal s.sourceBytes ++ "\n" ++ Numeral.decimal s.destBytes

structure Report where
  outcomes : List Outcome
  summary : Summary
deriving DecidableEq, Repr

namespace Report

def compare (source dest : Snapshot) : Report where
  outcomes := source.records.map fun r => .ofRecord r (dest.get? r.path)
  summary := ⟨source.size, dest.size, source.totalBytes, dest.totalBytes⟩

def hasDifferences (r : Report) : Bool := r.outcomes.any (!·.isOk)

def event (r : Report) : Log.Event :=
  ⟨.debug, "treecheck::diff::diff_report",
    "Compared " ++ Numeral.decimal r.outcomes.length ++ " source files, "
      ++ Numeral.decimal (r.outcomes.filter (!·.isOk)).length ++ " differ"⟩

end Report

end TreeCompare
