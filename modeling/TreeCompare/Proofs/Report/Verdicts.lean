import TreeCompare.Proofs.Scan.Entries
import TreeCompare.Report.Run

/-!
# Verdicts

A report judges every entry of the source by its bytes in both trees. What the
destination has no entry for is missing there, whatever else may stand at its place;
two entries are the same if their bytes agree in length and digest.
-/
namespace TreeCompare.Report

open Scan (IsEntry bytesAt entries recordAt)

variable {fs : FileSystem} {source dest : Path} {s d : Snapshot}

/-- The outcome that the bytes of an entry in both trees call for. -/
def Judged (fs : FileSystem) (source dest : Path) (names : List Name) (o : Outcome) : Prop :=
  let here := bytesAt fs source names
  let there := bytesAt fs dest names
  (o = .missing (.relative names) ↔ ¬ IsEntry fs dest names) ∧
  (o = .same (.relative names) (.ofContent here) (.ofContent there) ↔
    IsEntry fs dest names ∧ here.length = there.length ∧
      Metro.digest here = Metro.digest there) ∧
  (o = .differs (.relative names) (.ofContent here) (.ofContent there) ↔
    IsEntry fs dest names ∧
      ¬ (here.length = there.length ∧ Metro.digest here = Metro.digest there))

theorem ofContent_eq_iff {a b : List UInt8} :
    Fingerprint.ofContent a = .ofContent b ↔
      a.length = b.length ∧ Metro.digest a = Metro.digest b := by
  simp [Fingerprint.ofContent, and_comm]

theorem judged_ofRecord (hd : (Snapshot.scan fs dest).result = .ok d) (names : List Name) :
    Judged fs source dest names
      (.ofRecord (recordAt fs source names) (d.get? (.relative names))) := by
  by_cases he : IsEntry fs dest names
  · rw [Scan.get?_of_isEntry hd he rfl]
    by_cases hf : Fingerprint.ofContent (bytesAt fs source names) =
        .ofContent (bytesAt fs dest names)
    · have hagree := ofContent_eq_iff.1 hf
      simp [Judged, Outcome.ofRecord, recordAt, he, hf, hagree.1, hagree.2]
    · have hagree := mt ofContent_eq_iff.2 hf
      simp only [Judged, Outcome.ofRecord, recordAt, he, Ne.symm hf, if_false]
      simp only [hagree]
      simp
  · have hnone : d.get? (.relative names) = none := by
      refine Scan.get?_of_no_entry hd fun names' he' hsame => he ?_
      rwa [← Path.relative_same_iff.1 hsame]
    rw [hnone]
    simp [Judged, Outcome.ofRecord, recordAt, he]

/-- A judged outcome is one of three. -/
theorem Judged.cases {names : List Name} {o : Outcome} (h : Judged fs source dest names o) :
    (¬ IsEntry fs dest names ∧ o = .missing (.relative names)) ∨
    (IsEntry fs dest names ∧
      (bytesAt fs source names).length = (bytesAt fs dest names).length ∧
      o = .same (.relative names) (.ofContent (bytesAt fs source names))
        (.ofContent (bytesAt fs dest names))) ∨
    (IsEntry fs dest names ∧ bytesAt fs source names ≠ bytesAt fs dest names ∧
      o = .differs (.relative names) (.ofContent (bytesAt fs source names))
        (.ofContent (bytesAt fs dest names))) := by
  obtain ⟨hmissing, hsame, hdiffers⟩ := h
  by_cases he : IsEntry fs dest names
  · by_cases hagree : (bytesAt fs source names).length = (bytesAt fs dest names).length ∧
        Metro.digest (bytesAt fs source names) = Metro.digest (bytesAt fs dest names)
    · exact .inr (.inl ⟨he, hagree.1, hsame.2 ⟨he, hagree⟩⟩)
    · refine .inr (.inr ⟨he, fun heq => hagree ?_, hdiffers.2 ⟨he, hagree⟩⟩)
      rw [heq]
      exact ⟨rfl, rfl⟩
  · exact .inl ⟨he, hmissing.2 he⟩

theorem outcomes_eq (hs : (Snapshot.scan fs source).result = .ok s) (d : Snapshot) :
    (compare s d).outcomes = (entries fs source).map fun names =>
      .ofRecord (recordAt fs source names) (d.get? (.relative names)) := by
  rw [compare, (Scan.scan_recorded hs).1, List.map_map]
  rfl

section Scanned

variable (hs : (Snapshot.scan fs source).result = .ok s)
  (hd : (Snapshot.scan fs dest).result = .ok d)
include hs hd

theorem outcomes_judged :
    List.Forall₂ (Judged fs source dest) (entries fs source) (compare s d).outcomes := by
  rw [outcomes_eq hs, List.forall₂_map_right_iff, List.forall₂_same]
  exact fun names _ => judged_ofRecord hd names

theorem judged_of_isEntry {names : List Name} (he : IsEntry fs source names) :
    ∃ o ∈ (compare s d).outcomes, Judged fs source dest names o := by
  refine ⟨_, ?_, judged_ofRecord hd names⟩
  rw [outcomes_eq hs]
  exact List.mem_map_of_mem (Scan.mem_entries.2 he)

theorem judged_of_mem {o : Outcome} (ho : o ∈ (compare s d).outcomes) :
    ∃ names, IsEntry fs source names ∧ Judged fs source dest names o := by
  rw [outcomes_eq hs] at ho
  obtain ⟨names, hn, rfl⟩ := List.mem_map.1 ho
  exact ⟨names, Scan.mem_entries.1 hn, judged_ofRecord hd names⟩

/-- Two roots with the same entries and the same bytes in them do not differ. -/
theorem no_differences (hentries : ∀ names, IsEntry fs source names ↔ IsEntry fs dest names)
    (hbytes : ∀ names, IsEntry fs source names → bytesAt fs source names = bytesAt fs dest names) :
    (compare s d).hasDifferences = false := by
  rw [hasDifferences, List.any_eq_false]
  intro o ho
  obtain ⟨names, he, hj⟩ := judged_of_mem hs hd ho
  obtain ⟨hno, -⟩ | ⟨-, -, rfl⟩ | ⟨-, hne, -⟩ := hj.cases
  · exact absurd ((hentries names).1 he) hno
  · simp [Outcome.isOk]
  · exact absurd (hbytes names he) hne

end Scanned

theorem writeAll_of_no_limit {sink : Sink} (h : sink.limit = none) (pieces : List (List UInt8)) :
    (sink.writeAll pieces).2 = sink.flush := by
  induction pieces generalizing sink with
  | nil => rfl
  | cons piece pieces ih =>
      rw [Sink.writeAll, Sink.write, h]
      exact ih rfl

/-- A run after two scans that end well fails only if its report cannot be written. -/
theorem run_result (hs : (Snapshot.scan fs source).result = .ok s)
    (hd : (Snapshot.scan fs dest).result = .ok d) (style : Style) (colors : Bool) (sink : Sink) :
    (run fs source dest style colors sink).result =
      (((compare s d).writeTo style colors sink).2.mapError .output).map
        fun _ => compare s d := by
  have hsource : (Action.ofLogged ((Snapshot.scan fs source).mapError CompareError.source)
      sink).result = .ok s := by
    simp [Action.ofLogged, Logged.mapError, hs, Except.mapError]
  have hdest : (Action.ofLogged ((Snapshot.scan fs dest).mapError CompareError.dest)
      sink).result = .ok d := by
    simp [Action.ofLogged, Logged.mapError, hd, Except.mapError]
  unfold run
  refine (Action.result_bind_of_ok (a := ()) rfl).trans ?_
  refine (Action.result_bind_of_ok hsource).trans ?_
  refine (Action.result_bind_of_ok hdest).trans ?_
  refine (Action.result_bind_of_ok (a := ()) rfl).trans ?_
  cases hw : ((compare s d).writeTo style colors sink).2 with
  | error e =>
      refine Action.result_bind_of_error ?_
      change Except.mapError _ ((compare s d).writeTo style colors sink).2 = _
      rw [hw]
      rfl
  | ok u =>
      have hwrite : ((Action.ofStep ((compare s d).writeTo style colors)).mapError
          CompareError.output sink).result = .ok u := by
        change Except.mapError _ ((compare s d).writeTo style colors sink).2 = _
        rw [hw]
        rfl
      refine (Action.result_bind_of_ok hwrite).trans ?_
      split <;> rfl

/-- Every entry of the source is judged once and by its bytes alone. -/
theorem run_judges_entries (hs : (Snapshot.scan fs source).result = .ok s)
    (hd : (Snapshot.scan fs dest).result = .ok d) :
    (∀ style colors sink r, (run fs source dest style colors sink).result = .ok r →
      r = compare s d) ∧
    (∀ style colors, (run fs source dest style colors .unlimited).result = .ok (compare s d)) ∧
    (∀ names, IsEntry fs source names →
      fs.contents (source.join (.relative names)) = .ok (bytesAt fs source names)) ∧
    (∀ names, IsEntry fs dest names →
      fs.contents (dest.join (.relative names)) = .ok (bytesAt fs dest names)) ∧
    (∃ places places' : List (List Name),
      (places.Nodup ∧ ∀ names, names ∈ places ↔ IsEntry fs source names) ∧
      (places'.Nodup ∧ ∀ names, names ∈ places' ↔ IsEntry fs dest names) ∧
      List.Forall₂ (Judged fs source dest) places (compare s d).outcomes ∧
      (compare s d).summary = ⟨places.length, places'.length,
        (places.map fun names => (bytesAt fs source names).length).sum,
        (places'.map fun names => (bytesAt fs dest names).length).sum⟩) ∧
    (∀ names node, IsEntry fs source names → (fs.tree dest).find? names = some node →
      Scan.role fs dest (names, node) ≠ .content →
      .missing (.relative names) ∈ (compare s d).outcomes) ∧
    (∀ names, IsEntry fs source names → IsEntry fs dest names →
      bytesAt fs source names = bytesAt fs dest names →
      ∃ f g, .same (.relative names) f g ∈ (compare s d).outcomes) ∧
    (∀ names f g, .differs (.relative names) f g ∈ (compare s d).outcomes →
      bytesAt fs source names ≠ bytesAt fs dest names) ∧
    (∀ names f g, .same (.relative names) f g ∈ (compare s d).outcomes →
      (bytesAt fs source names).length = (bytesAt fs dest names).length) ∧
    ((∀ names, IsEntry fs source names ↔ IsEntry fs dest names) →
      (∀ names, IsEntry fs source names → bytesAt fs source names = bytesAt fs dest names) →
      (compare s d).hasDifferences = false ∧ (compare d s).hasDifferences = false) := by
  refine ⟨fun style colors sink r h => ?_, fun style colors => ?_, (Scan.scan_recorded hs).2,
    (Scan.scan_recorded hd).2, ?_, fun names node he hf hr => ?_, fun names he he' hbytes => ?_,
    fun names f g ho => ?_, fun names f g ho => ?_, fun hentries hbytes => ?_⟩
  · rw [run_result hs hd] at h
    cases hw : ((compare s d).writeTo style colors sink).2 with
    | error e => simp [hw, Except.mapError, Except.map] at h
    | ok u => simpa [hw, Except.mapError, Except.map, eq_comm] using h
  · rw [run_result hs hd, writeTo, writeAll_of_no_limit rfl]
    rfl
  · refine ⟨entries fs source, entries fs dest,
      ⟨Scan.nodup_entries fs source, fun _ => Scan.mem_entries⟩,
      ⟨Scan.nodup_entries fs dest, fun _ => Scan.mem_entries⟩, outcomes_judged hs hd, ?_⟩
    rw [compare, Scan.size_eq hs, Scan.size_eq hd, Scan.totalBytes_eq hs, Scan.totalBytes_eq hd]
  · obtain ⟨o, ho, hj⟩ := judged_of_isEntry hs hd he
    have hno : ¬ IsEntry fs dest names := by
      rintro ⟨-, node', hf', hr'⟩
      obtain rfl := Option.some.inj (hf.symm.trans hf')
      exact hr hr'
    rwa [hj.1.2 hno] at ho
  · obtain ⟨o, ho, hj⟩ := judged_of_isEntry hs hd he
    rw [hj.2.1.2 ⟨he', by rw [hbytes], by rw [hbytes]⟩] at ho
    exact ⟨_, _, ho⟩
  · obtain ⟨names', -, hj⟩ := judged_of_mem hs hd ho
    obtain ⟨-, heq⟩ | ⟨-, -, heq⟩ | ⟨-, hne, heq⟩ := hj.cases
    · cases heq
    · cases heq
    · obtain ⟨hpath, -⟩ := Outcome.differs.inj heq
      rwa [Path.relative_injective hpath]
  · obtain ⟨names', -, hj⟩ := judged_of_mem hs hd ho
    obtain ⟨-, heq⟩ | ⟨-, hlen, heq⟩ | ⟨-, -, heq⟩ := hj.cases
    · cases heq
    · obtain ⟨hpath, -⟩ := Outcome.same.inj heq
      rwa [Path.relative_injective hpath]
    · cases heq
  · refine ⟨no_differences hs hd hentries hbytes, no_differences hd hs (fun names =>
      (hentries names).symm) fun names he => ?_⟩
    exact (hbytes names ((hentries names).2 he)).symm

open Scan (sample nameC) in
theorem sample_judged : ∃ s d, (Snapshot.scan sample ⟨[slash]⟩).result = .ok s ∧
    (Snapshot.scan sample ⟨[slash, 0x61]⟩).result = .ok d ∧
    .missing (.relative [nameC]) ∈ (compare s d).outcomes := by
  have hentry : IsEntry sample ⟨[slash]⟩ [nameC] := ⟨by simp, .link ⟨[0x62]⟩, rfl, rfl⟩
  have hlink : Scan.role sample ⟨[slash, 0x61]⟩ ([nameC], .link ⟨dot⟩) = .directoryLink := rfl
  have hother : Scan.role sample ⟨[slash, 0x61]⟩ ([nameC], .link ⟨dot⟩) ≠ .content := by
    rw [hlink]
    decide
  obtain ⟨s, hs⟩ := Scan.scan_sample
  obtain ⟨d, hd⟩ := Scan.scan_sample_below
  obtain ⟨-, -, -, -, -, hmissing, -⟩ := run_judges_entries hs hd
  exact ⟨s, d, hs, hd, hmissing _ _ hentry rfl hother⟩

end TreeCompare.Report
