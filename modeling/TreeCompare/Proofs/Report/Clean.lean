import TreeCompare.Proofs.Report.Verdicts
import TreeCompare.Proofs.Report.Tally

/-!
# Reports without differences

A report lists what becomes of the source files only. It has no differences exactly if
all contents of the source are contents of the destination, so reports without
differences compose, and the numbers of files tell whether the destination has more.
If it has not, the report vouches for the other direction too.
-/
namespace TreeCompare

theorem Outcome.isOk_iff_kind {o : Outcome} : o.isOk = true ↔ o.kind = .same := by
  cases o <;> simp [isOk, kind]

namespace Report

variable {s d e : Snapshot}

/-- All outcomes are fine. -/
def Clean (source dest : Snapshot) : Prop := (compare source dest).hasDifferences = false

theorem clean_iff_kind : Clean s d ↔ ∀ o ∈ (compare s d).outcomes, o.kind = .same := by
  simp [Clean, hasDifferences, Outcome.isOk_iff_kind]

theorem clean_iff_subset : Clean s d ↔ s.contents ⊆ d.contents := by
  rw [clean_iff_kind, compare, List.forall_mem_map]
  simp only [kind_eq_same_iff, List.subset_def, Snapshot.contents, List.forall_mem_map]

theorem Clean.refl (s : Snapshot) : Clean s s :=
  clean_iff_subset.2 (List.Subset.refl _)

theorem Clean.trans (h : Clean s d) (h' : Clean d e) : Clean s e :=
  clean_iff_subset.2 (List.Subset.trans (clean_iff_subset.1 h) (clean_iff_subset.1 h'))

/-- What a path finds in the source it finds in the destination, with one fingerprint. -/
theorem clean_iff_get? : Clean s d ↔ ∀ path f, (s.get? path).map (·.fingerprint) = some f →
    (d.get? path).map (·.fingerprint) = some f := by
  rw [clean_iff_subset]
  constructor
  · intro h path f hf
    exact Snapshot.mem_contents_iff_get?.1 (h (Snapshot.mem_contents_iff_get?.2 hf))
  · intro h
    simp only [List.subset_def, Snapshot.contents, List.forall_mem_map]
    intro r hr
    refine Snapshot.mem_contents_iff_get?.2 (h r.path r.fingerprint ?_)
    exact Snapshot.mem_contents_iff_get?.1 (Snapshot.mem_contents_iff.2 ⟨r, hr, rfl, rfl⟩)

/-- Two snapshots are clean in both directions exactly if they are one map. -/
theorem clean_both_iff : (Clean s d ∧ Clean d s) ↔
    ∀ path, (s.get? path).map (·.fingerprint) = (d.get? path).map (·.fingerprint) := by
  rw [clean_iff_get?, clean_iff_get?]
  constructor
  · rintro ⟨h, h'⟩ path
    exact Option.ext fun f => ⟨h path f, h' path f⟩
  · intro h
    exact ⟨fun path f hf => (h path).symm.trans hf, fun path f hf => (h path).trans hf⟩

/-- A clean report with equal counts vouches for the destination as well. -/
theorem Clean.perm (h : Clean s d)
    (hcount : (compare s d).summary.sourceCount = (compare s d).summary.destCount) :
    s.contents.Perm d.contents :=
  Snapshot.contents_perm (clean_iff_subset.1 h) (Nat.le_of_eq hcount.symm)

theorem Clean.symm_of_counts (h : Clean s d)
    (hcount : (compare s d).summary.sourceCount = (compare s d).summary.destCount) :
    Clean d s :=
  clean_iff_subset.2 (h.perm hcount).symm.subset

/-- To have a clean report is a preorder; it grows with the numbers of files and bytes,
and snapshots that are equal in it hold the same files. With equal counts it is enough
to look at one of the two reports. -/
theorem clean_preorder :
    (∀ s, Clean s s) ∧
    (∀ s d e, Clean s d → Clean d e → Clean s e) ∧
    (∀ s d, Clean s d →
      (compare s d).summary.sourceCount ≤ (compare s d).summary.destCount ∧
      (compare s d).summary.sourceBytes ≤ (compare s d).summary.destBytes) ∧
    (∀ s d, (Clean s d ∧ Clean d s) ↔
      ∀ path, (s.get? path).map (·.fingerprint) = (d.get? path).map (·.fingerprint)) ∧
    (∀ s d, Clean s d →
      (compare s d).summary.sourceCount = (compare s d).summary.destCount →
      (∀ r ∈ d.records, ∃ r' ∈ s.records,
        r'.path.Same r.path ∧ r'.fingerprint = r.fingerprint) ∧
      (compare s d).summary.sourceBytes = (compare s d).summary.destBytes ∧
      Clean d s) := by
  refine ⟨Clean.refl, fun s d e => Clean.trans, ?_, fun s d => clean_both_iff, ?_⟩
  · intro s d h
    have hsub := clean_iff_subset.1 h
    exact ⟨Snapshot.size_le_of_subset hsub, Snapshot.totalBytes_le_of_subset hsub⟩
  · intro s d h hcount
    have hperm := h.perm hcount
    refine ⟨?_, Snapshot.totalBytes_eq_of_perm hperm, h.symm_of_counts hcount⟩
    intro r hr
    apply Snapshot.mem_contents_iff.1
    exact hperm.symm.subset (Snapshot.mem_contents_iff.2 ⟨r, hr, rfl, rfl⟩)

theorem clean_preorder_reordered :
    let a : Record := ⟨⟨[0x61]⟩, ⟨⟨1⟩, 3⟩⟩
    let b : Record := ⟨⟨[0x62]⟩, ⟨⟨2⟩, 5⟩⟩
    let b' : Record := ⟨⟨[0x62, slash]⟩, ⟨⟨2⟩, 5⟩⟩
    Clean (.ofList [a, b]) (.ofList [b', a]) ∧ Clean (.ofList [b', a]) (.ofList [a, b]) := by
  intro a b b'
  have hclean : Clean (.ofList [a, b]) (.ofList [b', a]) := by
    unfold Clean
    decide
  obtain ⟨-, -, -, -, hcounts⟩ := clean_preorder
  exact ⟨hclean, (hcounts _ _ hclean rfl).2.2⟩

open Scan (IsEntry bytesAt) in
/-- If the scans of two trees compare clean and count as many files, the trees have the
same entries, and at each of them as many bytes with one digest. -/
theorem same_entries_of_clean {fs : FileSystem} {source dest : Path}
    (hs : (Snapshot.scan fs source).result = .ok s)
    (hd : (Snapshot.scan fs dest).result = .ok d) (h : Clean s d)
    (hcount : (compare s d).summary.sourceCount = (compare s d).summary.destCount)
    (names : List Name) :
    (IsEntry fs source names ↔ IsEntry fs dest names) ∧
      (IsEntry fs source names →
        Fingerprint.ofContent (bytesAt fs source names) =
          .ofContent (bytesAt fs dest names)) := by
  -- both snapshots find the same at the path of an entry, and nothing where there is none
  have hsame := clean_both_iff.1 ⟨h, h.symm_of_counts hcount⟩ (.relative names)
  have hnone {root : Path} {t : Snapshot} (ht : (Snapshot.scan fs root).result = .ok t)
      (he : ¬ IsEntry fs root names) : t.get? (.relative names) = none :=
    Scan.get?_of_no_entry ht fun names' he' hp => he (Path.relative_same_iff.1 hp ▸ he')
  by_cases he : IsEntry fs source names <;> by_cases he' : IsEntry fs dest names
  · rw [Scan.get?_of_isEntry hs he rfl, Scan.get?_of_isEntry hd he' rfl] at hsame
    exact ⟨iff_of_true he he', fun _ => Option.some.inj hsame⟩
  · rw [Scan.get?_of_isEntry hs he rfl, hnone hd he'] at hsame
    cases hsame
  · rw [hnone hs he, Scan.get?_of_isEntry hd he' rfl] at hsame
    cases hsame
  · exact ⟨iff_of_false he he', fun hsource => absurd hsource he⟩

end Report

end TreeCompare
