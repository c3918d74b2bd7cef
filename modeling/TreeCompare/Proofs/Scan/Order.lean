import TreeCompare.Proofs.Files.Unordered
import TreeCompare.Proofs.Scan.Entries

/-!
# The order of a snapshot

The records of a scan go up in one order on paths. Where two paths first differ, the one
that ends there, a file, is before the one that goes on through a directory; of two that
both end or both go on the one with the smaller name is first. The raw order in which
directories list their entries has no part in it: a scan of the tree in another order is
the same scan, with the same events and the same result.
-/
namespace TreeCompare

namespace Component

/-- The order on paths as components; a path and one that begins with it have none. -/
def Before : List Component → List Component → Prop
  | a :: p, b :: q =>
      if a = b then Before p q
      else p = [] ∧ q ≠ [] ∨ (p = [] ↔ q = []) ∧ a.path.bytes < b.path.bytes
  | _, _ => False

theorem before_append (common p q : List Component) :
    Before (common ++ p) (common ++ q) ↔ Before p q := by
  induction common with
  | nil => rfl
  | cons c common ih => rw [List.cons_append, List.cons_append, Before, if_pos rfl, ih]

theorem Before.asymm {p q : List Component} (h : Before p q) : ¬ Before q p := by
  induction p generalizing q with
  | nil => exact h.elim
  | cons a p ih =>
      cases q with
      | nil => exact h.elim
      | cons b q =>
          rw [Before] at h ⊢
          by_cases hab : a = b
          · rw [if_pos hab] at h
            rw [if_pos hab.symm]
            exact ih h
          · rw [if_neg hab] at h
            rw [if_neg (Ne.symm hab)]
            rintro (⟨hq, hp⟩ | ⟨hends, hlt⟩)
            · rcases h with ⟨hp', -⟩ | ⟨hends, -⟩
              · exact hp hp'
              · exact hp (hends.2 hq)
            · rcases h with ⟨hp, hq⟩ | ⟨-, hlt'⟩
              · exact hq (hends.2 hp)
              · exact List.lt_asymm hlt hlt'

end Component

/-- Whether a path stands before another one in a snapshot. -/
def Path.Before (p q : Path) : Prop := Component.Before p.components q.components

/-- Paths of names that part at one name are in the order of how they go on there. -/
theorem Path.before_relative {common way way' : List Name} {n n' : Name} (hne : n ≠ n')
    (h : way = [] ∧ way' ≠ [] ∨ (way = [] ↔ way' = []) ∧ n.bytes < n'.bytes) :
    (Path.relative (common ++ n :: way)).Before (.relative (common ++ n' :: way')) := by
  have hcomponents : Component.name n ≠ .name n' := fun heq => hne (Component.name.inj heq)
  rw [Path.Before, components_relative, components_relative, List.map_append, List.map_append,
    Component.before_append, List.map_cons, List.map_cons, Component.Before,
    if_neg hcomponents, ne_eq, List.map_eq_nil_iff, List.map_eq_nil_iff]
  exact h

theorem Node.read_arranged (node : Node) : node.arranged.read = node.read := by
  by_cases hk : node.kind = .directory
  · cases node with
    | directory mode entries => rw [arranged_directory]; rfl
    | _ => cases hk
  · rw [arranged_of_kind_ne hk]

open Node (children)

namespace Scan

variable {fs : FileSystem} {root : Path}

theorem read_arranged (fs : FileSystem) (root path : Path) :
    Record.read fs.arranged root path = Record.read fs root path := by
  simp only [Record.read, FileSystem.open_arranged]
  cases fs.open (root.join path) with
  | error e => rfl
  | ok node =>
      simp only [Functor.map, Except.map, Except.mapError, bind, Except.bind]
      rw [node.read_arranged]

theorem readFiles_arranged (fs : FileSystem) (root : Path) (s : Snapshot) (files : List Path) :
    readFiles fs.arranged root s files = readFiles fs root s files := by
  induction files generalizing s with
  | nil => rfl
  | cons path files ih => simp only [readFiles, read_arranged, ih]

theorem classify_arranged (fs : FileSystem) (root relative : Path) :
    classify fs.arranged root relative = classify fs root relative := by
  funext listing entry
  unfold classify
  simp only [FileSystem.isDirectory_arranged]

theorem list_arranged (fs : FileSystem) (root relative : Path) :
    Scan.list fs.arranged root relative = Scan.list fs root relative := by
  simp only [Scan.list, classify_arranged]
  obtain ⟨e, hl, hl'⟩ | ⟨listed, listed', hl, hl', hp, hnodup⟩ :=
    fs.list_arranged (root.join relative)
  · rw [hl, hl']
  · rw [hl, hl']
    change List.foldlM _ _ (List.mergeSort _ byName) = List.foldlM _ _ (List.mergeSort _ byName)
    have hsort : listed.mergeSort byName = listed'.mergeSort byName :=
      Name.mergeSort_eq_of_perm hp hnodup
    rw [hsort]

theorem run_arranged (fs : FileSystem) (root : Path) (budget : Nat) (pending : List Path)
    (s : Snapshot) : run fs.arranged root budget pending s = run fs root budget pending s := by
  induction budget generalizing pending s with
  | zero => cases pending <;> rfl
  | succ budget ih =>
      cases pending with
      | nil => rfl
      | cons relative pending => simp only [run, list_arranged, readFiles_arranged, ih]

/-- A scan of the arranged tree is the same scan. -/
theorem scan_arranged (fs : FileSystem) (root : Path) :
    Snapshot.scan fs.arranged root = Snapshot.scan fs root := by
  have hroot : checkRoot fs.arranged root = checkRoot fs root := by
    rw [checkRoot, fs.kind_arranged]
    rfl
  have hbudget : fs.arranged.top.directories = fs.top.directories := fs.top.directories_arranged
  unfold Snapshot.scan
  rw [fs.describe_arranged, hroot, hbudget]
  simp only [run_arranged]

/-- How two objects below a root stand by their places. -/
def Ordered (p q : List Name × Node) : Prop :=
  (Path.relative p.1).Before (.relative q.1)

theorem pairwise_children (names : List Name) {entries : Entries} (h : entries.names.Nodup) :
    (children names entries).Pairwise fun p q =>
      ∃ n n', p.1 = names ++ [n] ∧ q.1 = names ++ [n'] ∧ n.bytes < n'.bytes := by
  rw [children, List.pairwise_map]
  exact (Entries.pairwise_sorted h).imp fun hlt => ⟨_, _, rfl, rfl, hlt⟩

theorem name_ne_of_bytes_lt {n n' : Name} (h : n.bytes < n'.bytes) : n ≠ n' := by
  rintro rfl
  exact List.lt_irrefl _ h

/-- What a child holds is behind the child's name, and the child is a directory. -/
theorem below_child {names : List Name} {n : Name} {p q : List Name × Node}
    (hp : p.1 = names ++ [n]) (hdistinct : p.2.Distinct) (hq : q ∈ p.2.inventory p.1) :
    p.2.kind = .directory ∧ ∃ way, way ≠ [] ∧ q.1 = names ++ n :: way := by
  constructor
  · by_contra hk
    rw [Node.inventory_of_kind_ne hk] at hq
    exact List.not_mem_nil hq
  · obtain ⟨way, hway, hplace⟩ :=
      Node.place_of_mem_inventory hdistinct (List.mem_map_of_mem (f := (·.1)) hq)
    exact ⟨way, hway, by rw [hplace, hp, List.append_assoc, List.singleton_append]⟩

theorem role_directory {p : List Name × Node} (h : p.2.kind = .directory) :
    role fs root p = .directory := by
  obtain ⟨names, node⟩ := p
  cases node with
  | directory mode entries => rfl
  | _ => cases h

/-- The objects that an inventory keeps as files are in order. -/
theorem pairwise_readable_inventory {tree : Node} (ht : tree.Distinct) (names : List Name) :
    (readable fs root (tree.inventory names)).Pairwise Ordered := by
  induction tree using Node.entriesInduction generalizing names with
  | other tree hk =>
      rw [Node.inventory_of_kind_ne hk]
      exact .nil
  | directory mode entries ih =>
      have hchildren := pairwise_children names ht.nodup
      rw [Node.inventory_directory, readable, List.filter_append, List.filter_flatMap]
      refine List.pairwise_append.2 ⟨?_, List.pairwise_flatMap.2 ⟨?_, ?_⟩, ?_⟩
      · -- two files of the directory itself
        refine (hchildren.imp ?_).filter _
        rintro p q ⟨n, n', hp, hq, hlt⟩
        rw [Ordered, hp, hq]
        exact Path.before_relative (name_ne_of_bytes_lt hlt) (.inr ⟨Iff.rfl, hlt⟩)
      · -- two files below one subdirectory
        intro p hp
        obtain ⟨n, -, he⟩ := Node.mem_children.1 hp
        exact ih _ he (ht.of_mem he) p.1
      · -- files below two subdirectories
        refine hchildren.imp_of_mem fun {p q} hp hq hnames x hx y hy => ?_
        obtain ⟨n, n', hp', hq', hlt⟩ := hnames
        obtain ⟨-, way, hway, hx'⟩ :=
          below_child hp' (ht.of_mem_children hp) (List.mem_filter.1 hx).1
        obtain ⟨-, way', hway', hy'⟩ :=
          below_child hq' (ht.of_mem_children hq) (List.mem_filter.1 hy).1
        rw [Ordered, hx', hy']
        exact Path.before_relative (name_ne_of_bytes_lt hlt)
          (.inr ⟨iff_of_false hway hway', hlt⟩)
      · -- a file of the directory itself and one below a subdirectory
        intro p hp y hy
        obtain ⟨hp, hrole⟩ := List.mem_filter.1 hp
        obtain ⟨q, hq, hy⟩ := List.mem_flatMap.1 hy
        obtain ⟨n, hn, he⟩ := Node.mem_children.1 hp
        obtain ⟨n', hn', he'⟩ := Node.mem_children.1 hq
        obtain ⟨hk, way, hway, hy'⟩ :=
          below_child hn' (ht.of_mem_children hq) (List.mem_filter.1 hy).1
        have hne : n ≠ n' := by
          rintro rfl
          have hsame : (n, p.2) = (n, q.2) := List.inj_on_of_nodup_map ht.nodup he he' rfl
          have hkind : p.2.kind = .directory := (Prod.mk.inj hsame).2 ▸ hk
          rw [role_directory hkind] at hrole
          cases hrole
        rw [Ordered, hn, hy']
        exact Path.before_relative hne (.inl ⟨rfl, hway⟩)

theorem pairwise_entries (fs : FileSystem) (root : Path) :
    (entries fs root).Pairwise fun a b => (Path.relative a).Before (.relative b) :=
  List.pairwise_map.2 (pairwise_readable_inventory (fs.tree_distinct root) [])

theorem records_ordered {s : Snapshot} (h : (Snapshot.scan fs root).result = .ok s) :
    s.records.Pairwise fun a b => a.path.Before b.path := by
  rw [(scan_recorded h).1]
  exact List.pairwise_map.2 (pairwise_entries fs root)

/-- The records of a snapshot go up in the order on paths, which leaves them no other
order, and a scan does not depend on the order in which directories list their entries. -/
theorem scan_order_canonical (fs : FileSystem) (root : Path) :
    (∀ s, (Snapshot.scan fs root).result = .ok s →
      (s.records.Pairwise fun a b => a.path.Before b.path) ∧
      ∀ records, records.Perm s.records →
        (records.Pairwise fun a b => a.path.Before b.path) → records = s.records) ∧
    ∀ fs' : FileSystem, fs.Reordered fs' → Snapshot.scan fs' root = Snapshot.scan fs root := by
  refine ⟨fun s h => ⟨records_ordered h, fun records hp hordered => ?_⟩, fun fs' h => ?_⟩
  · refine List.Perm.eq_of_pairwise ?_ hordered (records_ordered h) hp
    intro a b _ _ hab hba
    exact absurd hba hab.asymm
  · rw [← scan_arranged, h.arranged_eq, scan_arranged]

/-- The sample tree with the entries of two of its directories in another order. -/
def sampleReordered : FileSystem where
  top := .directory .all [
    (nameA, .directory .all [
      (nameC, .link ⟨dot⟩),
      (nameB, .file .all [])]),
    (nameB, .file .all [1, 2, 3]),
    (nameC, .link ⟨[0x62]⟩),
    (nameD, .special .plain .socket)]
  workingDirectory := ⟨[], []⟩
  privileged := false
  distinct := by simp [Node.Distinct, Entries.AllDistinct, nameA, nameB, nameC, nameD]

theorem sample_reordered : sample.Reordered sampleReordered := by
  have hbelow : (Node.directory .all [(nameB, .file .all []), (nameC, .link ⟨dot⟩)]).Reordered
      (.directory .all [(nameC, .link ⟨dot⟩), (nameB, .file .all [])]) :=
    .order (.swap _ _ _)
  have hentry (a b : Node) (h : a.Reordered b) :
      (Node.directory .all ([(nameB, .file .all [1, 2, 3])] ++ (nameA, a) ::
        [(nameC, .link ⟨[0x62]⟩), (nameD, .special .plain .socket)])).Reordered
      (.directory .all ([(nameB, .file .all [1, 2, 3])] ++ (nameA, b) ::
        [(nameC, .link ⟨[0x62]⟩), (nameD, .special .plain .socket)])) := .entry h
  exact ⟨(hentry _ _ hbelow).trans (.order (.swap _ _ _)), rfl, rfl⟩

theorem scan_order_canonical_sample : ∃ s,
    (Snapshot.scan sampleReordered ⟨[slash]⟩).result = .ok s ∧
      (Snapshot.scan sampleReordered ⟨[slash]⟩).events = (Snapshot.scan sample ⟨[slash]⟩).events ∧
      s.records.Pairwise fun a b => a.path.Before b.path := by
  obtain ⟨s, hs⟩ := scan_sample
  obtain ⟨hordered, hsame⟩ := scan_order_canonical sample ⟨[slash]⟩
  have hscan := hsame sampleReordered sample_reordered
  refine ⟨s, ?_, ?_, (hordered s hs).1⟩
  · rw [hscan, hs]
  · rw [hscan]

end Scan

end TreeCompare
