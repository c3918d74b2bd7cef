import TreeCompare.Proofs.Path.Spelling
import TreeCompare.Proofs.Snapshot.Collect

/-!
# Collecting in stages

Collecting the records of a snapshot before others makes the same as collecting all
that the snapshot was made from. So a snapshot only depends on the records that went
into it and their order, not on the stages in which they were collected.
-/
namespace TreeCompare.Snapshot

/-- Collecting keeps a record for every place. -/
theorem absent_ofList_iff {xs : List Record} {path : Path} :
    (∀ r ∈ (ofList xs).records, ¬ r.path.Same path) ↔ ∀ r ∈ xs, ¬ r.path.Same path := by
  rw [← get?_eq_none_iff, get?_ofList]
  simp

/-- What snapshots are made of decides what they and others after them make. -/
theorem ofList_append_congr {xs xs' ys ys' : List Record} (hx : ofList xs = ofList xs')
    (hy : ofList ys = ofList ys') : ofList (xs ++ ys) = ofList (xs' ++ ys') := by
  have hplaces (old : Record) : (∀ r ∈ ys, ¬ r.path.Same old.path) ↔
      ∀ r ∈ ys', ¬ r.path.Same old.path := by
    rw [← absent_ofList_iff, hy, absent_ofList_iff]
  have hfront : latest xs = latest xs' := by rw [← records_ofList, hx, records_ofList]
  have hback : latest ys = latest ys' := by rw [← records_ofList, hy, records_ofList]
  apply eq_of_records_eq
  simp only [records_ofList, latest_append, hfront, hback, hplaces]

/-- Records that are collected in stages: `given` has the records of snapshots that
were collected before in place of some of the records in `all`. -/
inductive Staged : (all given : List Record) → Prop
  | plain (xs : List Record) : Staged xs xs
  | collected {all given : List Record} (h : Staged all given) :
      Staged all (ofList given).records
  | append {all given all' given' : List Record} (h : Staged all given)
      (h' : Staged all' given') : Staged (all ++ all') (given ++ given')

theorem Staged.ofList_eq {all given : List Record} (h : Staged all given) :
    ofList given = ofList all := by
  induction h with
  | plain xs => rfl
  | collected _ ih => rw [ofList_records_self, ih]
  | append _ _ ih ih' => exact ofList_append_congr ih ih'

/-- What collecting records makes: the latest record of each place, to be found under
every spelling of its path, in however many stages. Sizes are exact numbers, so their
sum needs no bound. -/
theorem ofList_laws (xs : List Record) :
    (ofList xs).records = latest xs ∧
    ((ofList xs).records.Pairwise fun a b => ¬ a.path.Same b.path) ∧
    (∀ path, (ofList xs).get? path =
      (xs.filter fun r => decide (r.path.Same path)).getLast?) ∧
    (∀ path r, (ofList xs).get? path = some r ↔
      r ∈ (ofList xs).records ∧ r.path.Same path) ∧
    (∀ path path', Relation.EqvGen Path.Respelled path path' →
      (ofList xs).get? path = (ofList xs).get? path') ∧
    (ofList xs).size = (latest xs).length ∧
    (ofList xs).totalBytes = ((latest xs).map (·.fingerprint.size)).sum ∧
    (∀ r, (ofList xs).insert r = ofList (xs ++ [r])) ∧
    (∀ ys, ofList ((ofList xs).records ++ ys) = ofList (xs ++ ys)) ∧
    (∀ given, Staged xs given → ofList given = ofList xs) ∧
    (∀ s : Snapshot, ofList s.records = s) := by
  have hrecords := records_ofList xs
  refine ⟨hrecords, (ofList xs).distinct, get?_ofList xs, fun path r => get?_eq_some_iff,
    fun path path' h => get?_congr _ (Path.same_iff_respelled.2 h), ?_, ?_,
    fun r => (ofList_concat xs r).symm, fun ys => ?_, fun given h => h.ofList_eq,
    ofList_records_self⟩
  · rw [size, hrecords]
  · rw [totalBytes_eq_sum, hrecords]
  · exact ofList_append_congr (ofList_records_self _) rfl

theorem ofList_laws_respelled :
    let old : Record := ⟨⟨[0x61]⟩, ⟨⟨1⟩, 3⟩⟩
    let new : Record := ⟨⟨[0x61, slash]⟩, ⟨⟨2⟩, 5⟩⟩
    (ofList [old, new]).get? ⟨[0x61, slash, 0x2e]⟩ = some new ∧
      ofList ((ofList [old]).records ++ [new]) = ofList [old, new] := by
  intro old new
  obtain ⟨-, -, hlast, -, hspelling, -, -, -, -, hstaged, -⟩ := ofList_laws [old, new]
  have hdot : Path.Respelled ⟨[0x61, slash, 0x2e]⟩ ⟨[0x61, slash]⟩ := .lastDot [0x61]
  have hstages : Staged [old, new] ((ofList [old]).records ++ [new]) :=
    .append (.collected (.plain [old])) (.plain [new])
  refine ⟨?_, hstaged _ hstages⟩
  rw [hspelling _ _ (.rel _ _ hdot), hlast]
  decide

end TreeCompare.Snapshot
