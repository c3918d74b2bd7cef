import Mathlib.Algebra.Order.BigOperators.Group.List
import Mathlib.Algebra.Order.Group.Nat
import Mathlib.Data.List.Nodup
import Mathlib.Data.List.Perm.Subperm
import TreeCompare.Proofs.Snapshot.Collect

/-!
# The contents of a snapshot

Order and spelling left aside, a snapshot is a finite map from places to fingerprints.
No place occurs in it twice, so if all contents of one snapshot are contents of a
second, the second is at least as large, and it has no others if the sizes agree.
-/
namespace TreeCompare.Snapshot

/-- The places of a snapshot, each with the fingerprint of its file. -/
def contents (s : Snapshot) : List (List Component × Fingerprint) :=
  s.records.map fun r => (r.path.components, r.fingerprint)

def places (s : Snapshot) : List (List Component) := s.records.map (·.path.components)

variable {s d : Snapshot}

theorem nodup_places (s : Snapshot) : s.places.Nodup :=
  List.pairwise_map.2 s.distinct

theorem nodup_contents (s : Snapshot) : s.contents.Nodup := by
  apply List.Nodup.of_map Prod.fst
  rw [contents, List.map_map]
  exact s.nodup_places

theorem mem_places_iff {path : Path} :
    path.components ∈ s.places ↔ ∃ r ∈ s.records, r.path.Same path :=
  List.mem_map

theorem mem_contents_iff {path : Path} {f : Fingerprint} :
    (path.components, f) ∈ s.contents ↔
      ∃ r ∈ s.records, r.path.Same path ∧ r.fingerprint = f := by
  simp [contents, Path.Same]

theorem mem_contents_iff_get? {path : Path} {f : Fingerprint} :
    (path.components, f) ∈ s.contents ↔ (s.get? path).map (·.fingerprint) = some f := by
  rw [mem_contents_iff, Option.map_eq_some_iff]
  simp only [get?_eq_some_iff, and_assoc]

theorem length_contents (s : Snapshot) : s.contents.length = s.size :=
  List.length_map _

theorem sum_contents (s : Snapshot) : (s.contents.map (·.2.size)).sum = s.totalBytes := by
  rw [totalBytes_eq_sum, contents, List.map_map]
  rfl

theorem contents_subperm (h : s.contents ⊆ d.contents) : s.contents.Subperm d.contents :=
  List.subperm_of_subset s.nodup_contents h

theorem size_le_of_subset (h : s.contents ⊆ d.contents) : s.size ≤ d.size := by
  have hlen := (contents_subperm h).length_le
  rwa [length_contents, length_contents] at hlen

theorem totalBytes_le_of_subset (h : s.contents ⊆ d.contents) :
    s.totalBytes ≤ d.totalBytes := by
  obtain ⟨l, hperm, hsub⟩ := contents_subperm h
  rw [← sum_contents, ← sum_contents, ← (hperm.map _).sum_eq]
  exact (hsub.map _).sum_le_sum fun _ _ => Nat.zero_le _

/-- Without room for further places, contents that are all there are all there is. -/
theorem contents_perm (h : s.contents ⊆ d.contents) (hsize : d.size ≤ s.size) :
    s.contents.Perm d.contents := by
  rw [← length_contents, ← length_contents] at hsize
  exact (contents_subperm h).perm_of_length_le hsize

theorem totalBytes_eq_of_perm (h : s.contents.Perm d.contents) :
    s.totalBytes = d.totalBytes := by
  rw [← sum_contents, ← sum_contents, (h.map _).sum_eq]

/-- The record of a place is the only one that its path selects. -/
theorem filter_same_eq_singleton {r : Record} (hr : r ∈ s.records) {path : Path}
    (h : r.path.Same path) :
    s.records.filter (fun x => decide (x.path.Same path)) = [r] := by
  obtain ⟨front, back, heq⟩ := List.append_of_mem hr
  have hdistinct := s.distinct
  rw [heq] at hdistinct
  obtain ⟨-, hback, hfront⟩ := List.pairwise_append.1 hdistinct
  have hnone_front : front.filter (fun x => decide (x.path.Same path)) = [] := by
    refine List.filter_eq_nil_iff.2 fun x hx hs => ?_
    exact hfront x hx r List.mem_cons_self ((of_decide_eq_true hs).trans h.symm)
  have hnone_back : back.filter (fun x => decide (x.path.Same path)) = [] := by
    refine List.filter_eq_nil_iff.2 fun x hx hs => ?_
    exact (List.pairwise_cons.1 hback).1 x hx (h.trans (of_decide_eq_true hs).symm)
  rw [heq, List.filter_append, hnone_front, List.nil_append,
    List.filter_cons_of_pos (by simpa using h), hnone_back]

end TreeCompare.Snapshot
