import Mathlib.Algebra.Ring.Nat
import Mathlib.Data.List.Induction
import TreeCompare.Snapshot.Basic

/-!
# Collecting records

Of the records that are collected for one place the latest is kept, where it stands
and as it is spelled; records of different places keep their order. Each place has at
most one record, so looking up a path finds exactly the record of its place.
-/
namespace TreeCompare

/-- The records that no later record of the same place follows, in order. -/
def latest : List Record → List Record
  | [] => []
  | r :: rest =>
      if ∀ later ∈ rest, ¬ later.path.Same r.path then r :: latest rest else latest rest

/-- Records that come after others take out those of their places. -/
theorem latest_append (xs ys : List Record) :
    latest (xs ++ ys) =
      (latest xs).filter (fun old => ∀ r ∈ ys, ¬ r.path.Same old.path) ++ latest ys := by
  induction xs with
  | nil => simp [latest]
  | cons x xs ih =>
      have hsplit : (∀ later ∈ xs ++ ys, ¬ later.path.Same x.path) ↔
          (∀ later ∈ xs, ¬ later.path.Same x.path) ∧ ∀ r ∈ ys, ¬ r.path.Same x.path :=
        List.forall_mem_append
      rw [List.cons_append, latest, latest, ih]
      by_cases hx : ∀ later ∈ xs, ¬ later.path.Same x.path
      · by_cases hy : ∀ r ∈ ys, ¬ r.path.Same x.path
        · rw [if_pos (hsplit.2 ⟨hx, hy⟩), if_pos hx, List.filter_cons_of_pos (by simpa using hy),
            List.cons_append]
        · rw [if_neg fun h => hy (hsplit.1 h).2, if_pos hx,
            List.filter_cons_of_neg (by simpa using hy)]
      · rw [if_neg fun h => hx (hsplit.1 h).1, if_neg hx]

theorem latest_of_distinct {xs : List Record}
    (h : xs.Pairwise fun a b => ¬ a.path.Same b.path) : latest xs = xs := by
  induction xs with
  | nil => rfl
  | cons x xs ih =>
      obtain ⟨hx, hrest⟩ := List.pairwise_cons.1 h
      rw [latest, if_pos fun later hl hs => hx later hl hs.symm, ih hrest]

namespace Snapshot

theorem eq_of_records_eq {s t : Snapshot} (h : s.records = t.records) : s = t := by
  cases s
  cases t
  cases h
  rfl

theorem records_insert (s : Snapshot) (r : Record) :
    (s.insert r).records = s.records.filter (fun old => !decide (old.path.Same r.path)) ++ [r] :=
  rfl

theorem insert_records_of_new {s : Snapshot} {r : Record}
    (h : ∀ old ∈ s.records, ¬ old.path.Same r.path) :
    (s.insert r).records = s.records ++ [r] := by
  rw [records_insert, List.filter_eq_self.2 fun old hold => by simpa using h old hold]

theorem ofList_concat (xs : List Record) (r : Record) :
    ofList (xs ++ [r]) = (ofList xs).insert r := by
  simp [ofList]

theorem records_ofList (xs : List Record) : (ofList xs).records = latest xs := by
  induction xs using List.reverseRecOn with
  | nil => rfl
  | append_singleton xs r ih =>
      have hsame (old : Record) : decide (∀ later ∈ [r], ¬ later.path.Same old.path) =
          !decide (old.path.Same r.path) := by
        simp [Path.Same, eq_comm]
      rw [ofList_concat, records_insert, ih, latest_append]
      simp only [hsame]
      simp [latest]

/-- Records of different places stay as they are. -/
theorem ofList_records {records : List Record}
    (h : records.Pairwise fun a b => ¬ a.path.Same b.path) :
    (ofList records).records = records := by
  rw [records_ofList, latest_of_distinct h]

/-- A snapshot is what its own records make. -/
theorem ofList_records_self (s : Snapshot) : ofList s.records = s :=
  eq_of_records_eq (ofList_records s.distinct)

theorem get?_eq_some_iff {s : Snapshot} {path : Path} {r : Record} :
    s.get? path = some r ↔ r ∈ s.records ∧ r.path.Same path := by
  obtain ⟨records, distinct⟩ := s
  simp only [get?]
  induction records with
  | nil => simp
  | cons a records ih =>
      obtain ⟨ha, hrest⟩ := List.pairwise_cons.1 distinct
      rw [List.find?_cons]
      by_cases hs : a.path.Same path
      · simp only [hs, decide_true, Option.some.injEq, List.mem_cons]
        constructor
        · rintro rfl
          exact ⟨.inl rfl, hs⟩
        · rintro ⟨rfl | hr, hsame⟩
          · rfl
          · exact absurd (hs.trans hsame.symm) (ha r hr)
      · simp only [hs, decide_false, ih hrest, List.mem_cons]
        constructor
        · rintro ⟨hr, hsame⟩
          exact ⟨.inr hr, hsame⟩
        · rintro ⟨rfl | hr, hsame⟩
          · exact absurd hsame hs
          · exact ⟨hr, hsame⟩

theorem get?_eq_none_iff {s : Snapshot} {path : Path} :
    s.get? path = none ↔ ∀ r ∈ s.records, ¬ r.path.Same path := by
  simp [get?]

theorem get?_congr (s : Snapshot) {p q : Path} (h : p.Same q) : s.get? p = s.get? q := by
  have hsame (r : Record) : decide (r.path.Same p) = decide (r.path.Same q) :=
    decide_eq_decide.2 ⟨fun hr => hr.trans h, fun hr => hr.trans h.symm⟩
  simp only [get?, hsame]

theorem get?_insert (s : Snapshot) (r : Record) (path : Path) :
    (s.insert r).get? path = if r.path.Same path then some r else s.get? path := by
  split
  · next h => exact get?_eq_some_iff.2 ⟨by simp [records_insert], h⟩
  · next h =>
      -- what the new record takes out is of another place than the path
      apply Option.ext
      intro x
      rw [get?_eq_some_iff, get?_eq_some_iff, records_insert]
      constructor
      · rintro ⟨hx, hs⟩
        obtain hx | hx := List.mem_append.1 hx
        · exact ⟨(List.mem_filter.1 hx).1, hs⟩
        · rw [List.mem_singleton.1 hx] at hs
          exact absurd hs h
      · rintro ⟨hx, hs⟩
        have hother : ¬ x.path.Same r.path := fun hr => h (hr.symm.trans hs)
        exact ⟨List.mem_append_left _ (List.mem_filter.2 ⟨hx, by simpa using hother⟩), hs⟩

/-- A path finds the last record that was collected for its place. -/
theorem get?_ofList (xs : List Record) (path : Path) :
    (ofList xs).get? path = (xs.filter fun r => decide (r.path.Same path)).getLast? := by
  induction xs using List.reverseRecOn with
  | nil => rfl
  | append_singleton xs r ih =>
      rw [ofList_concat, get?_insert, ih, List.filter_append]
      by_cases h : r.path.Same path <;> simp [h]

theorem totalBytes_eq_sum (s : Snapshot) :
    s.totalBytes = (s.records.map (·.fingerprint.size)).sum := by
  rw [totalBytes, List.sum_eq_foldr, List.foldr_map]

end Snapshot

end TreeCompare
