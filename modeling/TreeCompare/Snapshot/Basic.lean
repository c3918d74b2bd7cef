import TreeCompare.Path.Basic
import TreeCompare.Snapshot.Fingerprint

/-!
# Snapshots

A snapshot holds the records of one tree in order, at most one for each place.
A record that is added under a path of the same place takes the older record
out and stands at the end, with its own spelling of the path.
-/
namespace TreeCompare

/-- What is known of one file. -/
structure Record where
  path : Path
  fingerprint : Fingerprint
deriving DecidableEq, Repr

structure Snapshot where
  records : List Record
  distinct : records.Pairwise fun a b => ¬ a.path.Same b.path

namespace Snapshot

def empty : Snapshot := ⟨[], .nil⟩

/-- The snapshot with a record added at the end. -/
def insert (s : Snapshot) (r : Record) : Snapshot where
  records := s.records.filter (fun old => !decide (old.path.Same r.path)) ++ [r]
  distinct := by
    refine List.pairwise_append.2 ⟨s.distinct.filter _, List.pairwise_singleton _ _, ?_⟩
    intro a ha b hb
    rw [List.mem_singleton.1 hb]
    simpa using (List.mem_filter.1 ha).2

/-- The snapshot of records that are added one after the other. -/
def ofList (records : List Record) : Snapshot := records.foldl insert empty

def get? (s : Snapshot) (path : Path) : Option Record :=
  s.records.find? fun r => decide (r.path.Same path)

def size (s : Snapshot) : Nat := s.records.length

def isEmpty (s : Snapshot) : Bool := s.records.isEmpty

def totalBytes (s : Snapshot) : Nat :=
  s.records.foldr (fun r total => r.fingerprint.size + total) 0

/-- Whether two snapshots list the same places and fingerprints in the same order. -/
def Same (s t : Snapshot) : Prop :=
  s.records.map (fun r => (r.path.components, r.fingerprint)) =
    t.records.map (fun r => (r.path.components, r.fingerprint))

instance (s t : Snapshot) : Decidable (Same s t) :=
  inferInstanceAs (Decidable (_ = _))

end Snapshot

end TreeCompare
