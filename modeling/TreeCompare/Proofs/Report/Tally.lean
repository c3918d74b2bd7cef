import Mathlib.Data.Finset.Card
import TreeCompare.Proofs.Snapshot.Contents
import TreeCompare.Report.Basic

/-!
# Both directions of a comparison

A comparison goes through the files of one tree and looks them up in the other. Turned
round it finds the same pairs, with the two fingerprints exchanged, whatever order and
spelling the trees list their files in: the outcomes that are not of missing files
belong to the places that both trees have.
-/
namespace TreeCompare

/-- What an outcome says without its name and fingerprints. -/
inductive Outcome.Kind
  | same
  | differs
  | missing
deriving DecidableEq, Repr

namespace Outcome

def kind : Outcome → Kind
  | .same _ _ _ => .same
  | .differs _ _ _ => .differs
  | .missing _ => .missing

@[simp] theorem name_ofRecord (r : Record) (found : Option Record) :
    (ofRecord r found).name = r.path := by
  cases found with
  | none => rfl
  | some x => by_cases h : x.fingerprint = r.fingerprint <;> simp [ofRecord, name, h]

theorem kind_ofRecord_eq_same {r : Record} {found : Option Record} :
    (ofRecord r found).kind = .same ↔ found.map (·.fingerprint) = some r.fingerprint := by
  cases found with
  | none => simp [ofRecord, kind]
  | some x => by_cases h : x.fingerprint = r.fingerprint <;> simp [ofRecord, kind, h]

theorem kind_ofRecord_eq_missing {r : Record} {found : Option Record} :
    (ofRecord r found).kind = .missing ↔ found = none := by
  cases found with
  | none => simp [ofRecord, kind]
  | some x => by_cases h : x.fingerprint = r.fingerprint <;> simp [ofRecord, kind, h]

theorem ofRecord_eq_same_iff {x y : Record} {n : Path} {a b : Fingerprint} :
    ofRecord x (some y) = .same n a b ↔
      y.fingerprint = x.fingerprint ∧ x.path = n ∧ x.fingerprint = a ∧ y.fingerprint = b := by
  by_cases h : y.fingerprint = x.fingerprint <;> simp [ofRecord, h]

theorem ofRecord_eq_differs_iff {x y : Record} {n : Path} {a b : Fingerprint} :
    ofRecord x (some y) = .differs n a b ↔
      y.fingerprint ≠ x.fingerprint ∧ x.path = n ∧ x.fingerprint = a ∧ y.fingerprint = b := by
  by_cases h : y.fingerprint = x.fingerprint <;> simp [ofRecord, h]

end Outcome

theorem countP_mem_eq_card {α : Type} [DecidableEq α] {l m : List α} (h : l.Nodup) :
    l.countP (fun a => decide (a ∈ m)) = (l.toFinset ∩ m.toFinset).card := by
  rw [List.countP_eq_length_filter, ← List.toFinset_card_of_nodup (h.filter _)]
  congr 1
  ext a
  simp

namespace Report

variable {s d : Snapshot}

/-- How many outcomes are of a kind. -/
def count (kind : Outcome.Kind) (r : Report) : Nat :=
  r.outcomes.countP fun o => decide (o.kind = kind)

/-- Places that both snapshots have. -/
def shared (s d : Snapshot) : Finset (List Component) := s.places.toFinset ∩ d.places.toFinset

/-- A file is found the same exactly if its content is one of the destination. -/
theorem kind_eq_same_iff {r : Record} :
    (Outcome.ofRecord r (d.get? r.path)).kind = .same ↔
      (r.path.components, r.fingerprint) ∈ d.contents :=
  Outcome.kind_ofRecord_eq_same.trans Snapshot.mem_contents_iff_get?.symm

theorem kind_eq_missing_iff {r : Record} :
    (Outcome.ofRecord r (d.get? r.path)).kind = .missing ↔ r.path.components ∉ d.places := by
  rw [Outcome.kind_ofRecord_eq_missing, Snapshot.get?_eq_none_iff, Snapshot.mem_places_iff]
  simp

theorem length_eq_counts (r : Report) :
    r.outcomes.length = r.count .same + r.count .differs + r.count .missing := by
  obtain ⟨outcomes, summary⟩ := r
  induction outcomes with
  | nil => rfl
  | cons o outcomes ih =>
      simp only [count] at ih
      simp only [count, List.length_cons, List.countP_cons, ih]
      cases hk : o.kind <;> simp <;> omega

theorem count_compare (kind : Outcome.Kind) (s d : Snapshot) :
    (compare s d).count kind =
      s.records.countP fun r => decide ((Outcome.ofRecord r (d.get? r.path)).kind = kind) :=
  List.countP_map

theorem count_same (s d : Snapshot) :
    (compare s d).count .same = (s.contents.toFinset ∩ d.contents.toFinset).card := by
  have hmap : s.contents = s.records.map fun r => (r.path.components, r.fingerprint) := rfl
  rw [← countP_mem_eq_card s.nodup_contents, count_compare, hmap, List.countP_map]
  exact List.countP_congr fun r _ => by simp [kind_eq_same_iff]

/-- A file is missing or its place is shared. -/
theorem sourceCount_eq (s d : Snapshot) :
    (compare s d).summary.sourceCount = (compare s d).count .missing + (shared s d).card := by
  have hmap : s.places = s.records.map (·.path.components) := rfl
  -- shared places are counted by the records of the source, each of a place of its own
  have hshared : (shared s d).card = s.records.countP fun r =>
      decide (¬ (Outcome.ofRecord r (d.get? r.path)).kind = .missing) := by
    rw [shared, ← countP_mem_eq_card s.nodup_places, hmap, List.countP_map]
    exact List.countP_congr fun r _ => by simp [kind_eq_missing_iff]
  have hcount : (compare s d).summary.sourceCount = s.records.length := rfl
  rw [hcount, hshared, count_compare]
  simpa using List.length_eq_countP_add_countP
    (fun r => decide ((Outcome.ofRecord r (d.get? r.path)).kind = .missing)) (l := s.records)

theorem shared_comm (s d : Snapshot) : shared s d = shared d s := Finset.inter_comm _ _

theorem count_same_comm (s d : Snapshot) :
    (compare s d).count .same = (compare d s).count .same := by
  rw [count_same, count_same, Finset.inter_comm]

theorem count_differs_comm (s d : Snapshot) :
    (compare s d).count .differs = (compare d s).count .differs := by
  have hlength (s d : Snapshot) :
      (compare s d).outcomes.length = (compare s d).summary.sourceCount :=
    List.length_map _
  -- what is neither missing nor the same differs, and the other counts agree already
  have hsplit := length_eq_counts (compare s d)
  have hsplit' := length_eq_counts (compare d s)
  rw [hlength, sourceCount_eq] at hsplit hsplit'
  rw [shared_comm, count_same_comm] at hsplit
  omega

/-- Two records of one place make one outcome in either direction. -/
theorem filter_outcomes {x y : Record} (hx : x ∈ s.records) (hy : y ∈ d.records)
    (h : y.path.Same x.path) :
    (compare d s).outcomes.filter (fun o => decide (o.name.Same x.path)) =
      [.ofRecord y (some x)] := by
  have hget : s.get? y.path = some x := Snapshot.get?_eq_some_iff.2 ⟨hx, h.symm⟩
  have hone := Snapshot.filter_same_eq_singleton hy h
  simp only [compare, List.filter_map, Function.comp_def, Outcome.name_ofRecord, hone,
    List.map_singleton, hget]

/-- Every outcome of a file that both trees have is of a pair of records. -/
theorem pair_of_mem {o : Outcome} (ho : o ∈ (compare s d).outcomes) (hk : o.kind ≠ .missing) :
    ∃ x ∈ s.records, ∃ y ∈ d.records, y.path.Same x.path ∧ o = .ofRecord x (some y) := by
  obtain ⟨x, hx, rfl⟩ := List.mem_map.1 ho
  cases hy : d.get? x.path with
  | none =>
      rw [hy] at hk
      exact absurd (Outcome.kind_ofRecord_eq_missing.2 rfl) hk
  | some y =>
      obtain ⟨hy, hs⟩ := Snapshot.get?_eq_some_iff.1 hy
      exact ⟨x, hx, y, hy, hs, rfl⟩

/-- Both directions of a comparison find the same pairs of files and judge them alike. -/
theorem compare_directions (s d : Snapshot) :
    (compare s d).count .same = (compare d s).count .same ∧
    (compare s d).count .differs = (compare d s).count .differs ∧
    (compare s d).summary.sourceCount = (compare s d).count .missing + (shared s d).card ∧
    (compare d s).summary.sourceCount = (compare d s).count .missing + (shared s d).card ∧
    (∀ n a b, .same n a b ∈ (compare s d).outcomes → ∃ n' : Path, n'.Same n ∧
      (compare d s).outcomes.filter (fun o => decide (o.name.Same n)) = [.same n' b a]) ∧
    (∀ n a b, .differs n a b ∈ (compare s d).outcomes → ∃ n' : Path, n'.Same n ∧
      (compare d s).outcomes.filter (fun o => decide (o.name.Same n)) = [.differs n' b a]) := by
  refine ⟨count_same_comm s d, count_differs_comm s d, sourceCount_eq s d, ?_,
    fun n a b ho => ?_, fun n a b ho => ?_⟩
  · rw [shared_comm]
    exact sourceCount_eq d s
  · obtain ⟨x, hx, y, hy, hsame, heq⟩ := pair_of_mem ho (by simp [Outcome.kind])
    obtain ⟨hf, rfl, rfl, rfl⟩ := Outcome.ofRecord_eq_same_iff.1 heq.symm
    refine ⟨y.path, hsame, ?_⟩
    rw [filter_outcomes hx hy hsame, Outcome.ofRecord_eq_same_iff.2 ⟨hf.symm, rfl, rfl, rfl⟩]
  · obtain ⟨x, hx, y, hy, hsame, heq⟩ := pair_of_mem ho (by simp [Outcome.kind])
    obtain ⟨hf, rfl, rfl, rfl⟩ := Outcome.ofRecord_eq_differs_iff.1 heq.symm
    refine ⟨y.path, hsame, ?_⟩
    rw [filter_outcomes hx hy hsame,
      Outcome.ofRecord_eq_differs_iff.2 ⟨hf.symm, rfl, rfl, rfl⟩]

theorem compare_directions_respelled :
    let f : Fingerprint := ⟨⟨1⟩, 3⟩
    let g : Fingerprint := ⟨⟨2⟩, 5⟩
    let s := Snapshot.ofList [⟨⟨[0x61]⟩, f⟩, ⟨⟨[0x62]⟩, g⟩]
    let d := Snapshot.ofList [⟨⟨[0x62, slash]⟩, f⟩, ⟨⟨[0x61, slash]⟩, f⟩]
    (∃ n' : Path, n'.Same ⟨[0x61]⟩ ∧
      (compare d s).outcomes.filter (fun o => decide (o.name.Same ⟨[0x61]⟩)) =
        [.same n' f f]) ∧
    ∃ n' : Path, n'.Same ⟨[0x62]⟩ ∧
      (compare d s).outcomes.filter (fun o => decide (o.name.Same ⟨[0x62]⟩)) =
        [.differs n' f g] := by
  intro f g s d
  obtain ⟨-, -, -, -, hsame, hdiffers⟩ := compare_directions s d
  exact ⟨hsame ⟨[0x61]⟩ f f (by decide), hdiffers ⟨[0x62]⟩ g f (by decide)⟩

end Report

end TreeCompare
