import TreeCompare.Snapshot.Basic
import TreeCompare.Text.Quoted

/-!
# Outcomes

How one file of the source fared in the destination, and the line that says so.
A file that is there in both trees has its name quoted; the name of a missing
file is printed as it is.
-/
namespace TreeCompare

inductive Outcome
  | same (name : Path) (source dest : Fingerprint)
  | differs (name : Path) (source dest : Fingerprint)
  | missing (name : Path)
deriving DecidableEq, Repr

namespace Outcome

def name : Outcome → Path
  | .same name _ _ => name
  | .differs name _ _ => name
  | .missing name => name

def isOk : Outcome → Bool
  | .same _ _ _ => true
  | _ => false

/-- The outcome for a source record with what the destination has in its place. -/
def ofRecord (source : Record) : Option Record → Outcome
  | none => .missing source.path
  | some dest =>
      if dest.fingerprint = source.fingerprint then
        .same source.path source.fingerprint dest.fingerprint
      else .differs source.path source.fingerprint dest.fingerprint

def label : Outcome → String
  | .same _ _ _ => "Ok"
  | .differs _ _ _ => "Error"
  | .missing _ => "Not found in dest"

def detail : Outcome → String
  | .same name source dest =>
      Quoted.quote name.bytes ++ " " ++ source.text ++ " == " ++ dest.text
  | .differs name source dest =>
      Quoted.quote name.bytes ++ " " ++ source.text ++ " != " ++ dest.text
  | .missing name => name.display

def line (o : Outcome) : String := o.label ++ ": " ++ o.detail

end Outcome

end TreeCompare
