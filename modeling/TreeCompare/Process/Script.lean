import TreeCompare.Process.Basic

/-!
# Scripted programs

A stand-in for a test tool whose listing and ends are written down beforehand.
Asked for a listing by its third argument it writes the listing; any other
start is a test run, and the runs of all scripts are counted together. Each
start is kept with its arguments and environment.
-/
namespace TreeCompare

/-- What a scripted program does; `runs` holds the ends of the test runs in order. -/
structure Script where
  listing : List UInt8
  listExit : Exit
  runs : List Exit
  echo : Bool
deriving DecidableEq, Repr

/-- The starts so far, how many of them were test runs, and what those printed. -/
structure Stage where
  calls : List Invocation
  runCount : Nat
  printed : List UInt8
deriving DecidableEq, Repr

namespace Script

def listFlag : String := "--list"

def perform (script : Script) (i : Invocation) (s : Stage) : Stage × Completion :=
  let calls := s.calls ++ [i]
  if i.arguments[2]? = some listFlag then
    ({ s with calls := calls }, ⟨script.listExit, script.listing⟩)
  else
    let said := "ran " ++ (i.arguments[1]?).getD "" ++ "\n"
    ({ calls := calls, runCount := s.runCount + 1,
       printed := if script.echo then s.printed ++ Utf8.encode said else s.printed },
      ⟨(script.runs[s.runCount]?).getD (.code 0), []⟩)

/-- Starts the programs of a file system; the scripts are given by their places. -/
def launcher (fs : FileSystem) (search : List Path) (scripts : List (List Name × Script)) :
    Launcher Stage := fun i s =>
  match fs.program search i.program with
  | .error e => (s, .error e)
  | .ok place =>
      match scripts.lookup place with
      | none => (s, .error .noExecutableFormat)
      | some script =>
          let done := script.perform i s
          (done.1, .ok done.2)

end Script

end TreeCompare
