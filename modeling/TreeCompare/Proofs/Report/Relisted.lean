import Mathlib.Data.Fin.Embedding
import Mathlib.Data.Fin.SuccPred
import Mathlib.Data.List.NodupEquivFin
import TreeCompare.Proofs.Report.Clean

/-!
# Trees listed in another order

Two snapshots of one tree may list its files in different orders and spell their paths
in different ways. A comparison does not see in which way the destination does this. Of
the source it takes the order and the spelling over: its outcomes come in the order of
the source and under the names that the source has, and say the same of each file.
-/
namespace TreeCompare

namespace Snapshot

variable {s t : Snapshot}

/-- Whether `t` lists the files of `s`: at each position `i` of `t` stands the file that
stands at `f i` in `s`, perhaps with its path spelled in another way. -/
structure Relists (s t : Snapshot) (f : Fin t.records.length ≃ Fin s.records.length) :
    Prop where
  same (i : Fin t.records.length) : t.records[i].path.Same s.records[f i].path
  fingerprint (i : Fin t.records.length) : t.records[i].fingerprint = s.records[f i].fingerprint

variable {f : Fin t.records.length ≃ Fin s.records.length}

theorem Relists.size_eq (_ : Relists s t f) : t.size = s.size :=
  Fin.equiv_iff_eq.1 ⟨f⟩

theorem Relists.subset (h : Relists s t f) : t.contents ⊆ s.contents := by
  intro content hcontent
  obtain ⟨r, hr, rfl⟩ := List.mem_map.1 hcontent
  obtain ⟨i, hi, rfl⟩ := List.mem_iff_getElem.1 hr
  have hsame := h.same ⟨i, hi⟩
  have hfingerprint := h.fingerprint ⟨i, hi⟩
  refine mem_contents_iff.2 ⟨_, List.getElem_mem (f ⟨i, hi⟩).isLt, hsame.symm, hfingerprint.symm⟩

/-- Listed anew, a tree has the same contents. -/
theorem Relists.perm (h : Relists s t f) : t.contents.Perm s.contents :=
  contents_perm h.subset (Nat.le_of_eq h.size_eq.symm)

/-- Contents decide what the spellings of a path find. -/
theorem get?_of_perm (h : t.contents.Perm s.contents) {p q : Path} (hpq : p.Same q) :
    (t.get? p).map (·.fingerprint) = (s.get? q).map (·.fingerprint) := by
  rw [get?_congr t hpq]
  apply Option.ext
  intro content
  rw [← mem_contents_iff_get?, ← mem_contents_iff_get?]
  exact h.mem_iff

/-- Each position of a snapshot stands for one of its contents. -/
def positions (s : Snapshot) :
    Fin s.records.length ≃ {content // content ∈ s.contents} :=
  (finCongr s.length_contents.symm).trans (s.nodup_contents.getEquiv s.contents)

theorem val_positions (i : Fin s.records.length) :
    (s.positions i).val = (s.records[i].path.components, s.records[i].fingerprint) := by
  exact List.getElem_map (fun r : Record => (r.path.components, r.fingerprint))

theorem exists_relists_of_mem_iff
    (h : ∀ content, content ∈ t.contents ↔ content ∈ s.contents) : ∃ f, Relists s t f := by
  let f := t.positions.trans ((Equiv.subtypeEquivRight h).trans s.positions.symm)
  have hf (i : Fin t.records.length) :
      (t.records[i].path.components, t.records[i].fingerprint) =
        (s.records[f i].path.components, s.records[f i].fingerprint) := by
    have happly : s.positions (f i) = Equiv.subtypeEquivRight h (t.positions i) :=
      s.positions.apply_symm_apply _
    have hval : (s.positions (f i)).val = (t.positions i).val := congrArg Subtype.val happly
    rw [← val_positions, ← val_positions, hval]
  exact ⟨f, fun i => (Prod.mk.inj (hf i)).1, fun i => (Prod.mk.inj (hf i)).2⟩

/-- To list the same files is to find the same for every path. -/
theorem exists_relists_iff : (∃ f, Relists s t f) ↔
    ∀ path, (t.get? path).map (·.fingerprint) = (s.get? path).map (·.fingerprint) := by
  constructor
  · rintro ⟨f, h⟩ path
    exact get?_of_perm h.perm rfl
  · intro h
    apply exists_relists_of_mem_iff
    intro content
    obtain ⟨hts, hst⟩ := Report.clean_both_iff.2 h
    constructor
    · exact fun hc => Report.clean_iff_subset.1 hts hc
    · exact fun hc => Report.clean_iff_subset.1 hst hc

end Snapshot

namespace Outcome

/-- What an outcome says, said under another name. -/
def renamed (name : Path) : Outcome → Outcome
  | .same _ source dest => .same name source dest
  | .differs _ source dest => .differs name source dest
  | .missing _ => .missing name

theorem renamed_name (o : Outcome) : o.renamed o.name = o := by
  cases o <;> rfl

theorem renamed_ofRecord {r r' : Record} {found found' : Option Record}
    (h : r'.fingerprint = r.fingerprint)
    (hfound : found'.map (·.fingerprint) = found.map (·.fingerprint)) :
    ofRecord r' found' = (ofRecord r found).renamed r'.path := by
  cases found with
  | none =>
      obtain rfl : found' = none := by simpa using hfound
      rfl
  | some x =>
      obtain ⟨x', rfl, hx⟩ := Option.map_eq_some_iff.1 hfound
      by_cases hsame : x.fingerprint = r.fingerprint <;> simp [ofRecord, renamed, h, hx, hsame]

end Outcome

namespace Report

variable {s s' d d' : Snapshot} {f : Fin s'.records.length ≃ Fin s.records.length}
  {g : Fin d'.records.length ≃ Fin d.records.length}

theorem length_outcomes (s d : Snapshot) : (compare s d).outcomes.length = s.records.length :=
  List.length_map _

theorem outcomes_getElem? (s d : Snapshot) (i : Fin s.records.length) :
    (compare s d).outcomes[i.val]? =
      some (.ofRecord s.records[i] (d.get? s.records[i].path)) := by
  simp [compare]

/-- An outcome moves with its file and takes the name that the file has there. -/
theorem outcome_relisted (hs : s.Relists s' f) (hd : d.Relists d' g)
    (i : Fin s'.records.length) :
    Outcome.ofRecord s'.records[i] (d'.get? s'.records[i].path) =
      (Outcome.ofRecord s.records[f i] (d.get? s.records[f i].path)).renamed
        s'.records[i].path :=
  Outcome.renamed_ofRecord (hs.fingerprint i) (Snapshot.get?_of_perm hd.perm (hs.same i))

theorem summary_relisted (hs : s.Relists s' f) (hd : d.Relists d' g) :
    (compare s' d').summary = (compare s d).summary := by
  simp only [compare, hs.size_eq, hd.size_eq, Snapshot.totalBytes_eq_of_perm hs.perm,
    Snapshot.totalBytes_eq_of_perm hd.perm]

theorem clean_relisted (hs : s.Relists s' f) (hd : d.Relists d' g) :
    Clean s' d' ↔ Clean s d := by
  rw [clean_iff_subset, clean_iff_subset]
  exact hs.perm.subset_congr_left.trans hd.perm.subset_congr_right

/-- How the destination lists its files does not show in a report. -/
theorem compare_dest_relisted (s : Snapshot) (hd : d.Relists d' g) :
    compare s d' = compare s d := by
  have houtcome (r : Record) :
      Outcome.ofRecord r (d'.get? r.path) = .ofRecord r (d.get? r.path) := by
    rw [Outcome.renamed_ofRecord rfl (Snapshot.get?_of_perm hd.perm rfl)]
    have hname := Outcome.renamed_name (.ofRecord r (d.get? r.path))
    rwa [Outcome.name_ofRecord] at hname
  simp only [compare, houtcome, hd.size_eq, Snapshot.totalBytes_eq_of_perm hd.perm]

/-- If trees are listed anew, the outcomes of their comparison are put in the order of
the source and take the names that the source has now. What they say of the files, the
numbers of the summary and whether there are differences stay as they are, and so does
all of the report if only the destination is listed anew. -/
theorem compare_relisted (hs : s.Relists s' f) (hd : d.Relists d' g) :
    (compare s d).outcomes.length = s.records.length ∧
    (compare s' d').outcomes.length = s'.records.length ∧
    (∀ i : Fin s'.records.length, ∃ o, (compare s d).outcomes[(f i).val]? = some o ∧
      (compare s' d').outcomes[i.val]? = some (o.renamed s'.records[i].path)) ∧
    (compare s' d').summary = (compare s d).summary ∧
    (compare s' d').hasDifferences = (compare s d).hasDifferences ∧
    compare s d' = compare s d := by
  refine ⟨length_outcomes s d, length_outcomes s' d', fun i => ?_, summary_relisted hs hd, ?_,
    compare_dest_relisted s hd⟩
  · refine ⟨_, outcomes_getElem? s d (f i), ?_⟩
    rw [outcomes_getElem?, outcome_relisted hs hd]
  · have hclean := clean_relisted hs hd
    simp only [Clean, ← Bool.not_eq_true] at hclean
    exact Bool.eq_iff_iff.2 (not_iff_not.1 hclean)

/-- The source is turned round and one of its paths gets a slash at the end. -/
theorem compare_relisted_turned :
    let a : Record := ⟨⟨[0x61]⟩, ⟨⟨1⟩, 3⟩⟩
    let b : Record := ⟨⟨[0x62]⟩, ⟨⟨2⟩, 5⟩⟩
    let b' : Record := ⟨⟨[0x62, slash]⟩, ⟨⟨2⟩, 5⟩⟩
    let s : Snapshot := ⟨[a, b], by decide⟩
    let s' : Snapshot := ⟨[b', a], by decide⟩
    ∃ o, (compare s s).outcomes[1]? = some o ∧
      (compare s' s').outcomes[0]? = some (o.renamed ⟨[0x62, slash]⟩) := by
  intro a b b' s s'
  let turn : Fin s'.records.length ≃ Fin s.records.length := Equiv.swap (0 : Fin 2) 1
  have hturned : s.Relists s' turn := by
    constructor <;> decide
  obtain ⟨-, -, hmoved, -⟩ := compare_relisted hturned hturned
  exact hmoved (0 : Fin 2)

end Report

end TreeCompare
