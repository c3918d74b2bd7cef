import TreeCompare.Proofs.Files.Arranged
import TreeCompare.Proofs.Scan.Rounds

/-!
# The entries of a root

An entry of a root is a file, or a link that leads to no directory, in a directory
that is reached from the root through directories only. A scan that ends well has one
record for each entry, made from what opening the entry yields, and no others; all
else that it met is a directory that it listed or an object that it left alone, and
for each of the latter there is an event.
-/
namespace TreeCompare.Scan

variable {fs : FileSystem} {root : Path}

def IsEntry (fs : FileSystem) (root : Path) (names : List Name) : Prop :=
  names ≠ [] ∧ ∃ node, (fs.tree root).find? names = some node ∧
    role fs root (names, node) = .content

/-- The bytes of an entry, none if it cannot be opened. -/
def bytesAt (fs : FileSystem) (root : Path) (names : List Name) : List UInt8 :=
  match fs.contents (root.join (.relative names)) with
  | .ok bytes => bytes
  | .error _ => []

def recordAt (fs : FileSystem) (root : Path) (names : List Name) : Record :=
  ⟨.relative names, .ofContent (bytesAt fs root names)⟩

/-- All entries of a root in the order of a walk. -/
def entries (fs : FileSystem) (root : Path) : List (List Name) :=
  (readable fs root ((fs.tree root).inventory [])).map (·.1)

theorem mem_inventory_root {names : List Name} {node : Node} :
    (names, node) ∈ (fs.tree root).inventory [] ↔
      names ≠ [] ∧ (fs.tree root).find? names = some node := by
  simp [Node.mem_inventory_iff (fs.tree_distinct root)]

theorem mem_entries {names : List Name} : names ∈ entries fs root ↔ IsEntry fs root names := by
  constructor
  · intro h
    obtain ⟨⟨names, node⟩, hp, rfl⟩ := List.mem_map.1 h
    obtain ⟨hm, hr⟩ := List.mem_filter.1 hp
    obtain ⟨hne, hf⟩ := mem_inventory_root.1 hm
    exact ⟨hne, node, hf, of_decide_eq_true hr⟩
  · rintro ⟨hne, node, hf, hr⟩
    exact List.mem_map.2 ⟨(names, node),
      List.mem_filter.2 ⟨mem_inventory_root.2 ⟨hne, hf⟩, decide_eq_true hr⟩, rfl⟩

theorem nodup_entries (fs : FileSystem) (root : Path) : (entries fs root).Nodup :=
  (Node.nodup_inventory (fs.tree_distinct root) []).sublist (List.filter_sublist.map _)

theorem records_of_readAs {ps : List (List Name × Node)} {records : List Record}
    (h : List.Forall₂ (ReadAs fs root) ps records) :
    records = ps.map (fun p => recordAt fs root p.1) ∧
      ∀ p ∈ ps, fs.contents (root.join (.relative p.1)) = .ok (bytesAt fs root p.1) := by
  induction h with
  | nil => exact ⟨rfl, by simp⟩
  | @cons p r ps records hr _ ih =>
      obtain ⟨bytes, hbytes, rfl⟩ := hr
      obtain ⟨rfl, hall⟩ := ih
      have hat : bytesAt fs root p.1 = bytes := by rw [bytesAt, hbytes]
      refine ⟨?_, List.forall_mem_cons.2 ⟨by rw [hat, hbytes], hall⟩⟩
      rw [List.map_cons, recordAt, hat]

def nameA : Name := ⟨[0x61], by decide⟩
def nameB : Name := ⟨[0x62], by decide⟩
def nameC : Name := ⟨[0x63], by decide⟩
def nameD : Name := ⟨[0x64], by decide⟩

/-- Two files, a directory, links to a file and to a directory, and a socket. -/
def sample : FileSystem where
  top := .directory .all [
    (nameB, .file .all [1, 2, 3]),
    (nameA, .directory .all [
      (nameB, .file .all []),
      (nameC, .link ⟨dot⟩)]),
    (nameC, .link ⟨[0x62]⟩),
    (nameD, .special .plain .socket)]
  workingDirectory := ⟨[], []⟩
  privileged := false
  distinct := by simp [Node.Distinct, Entries.AllDistinct, nameA, nameB, nameC, nameD]

/-- A directory is gone through in the order of its names, whatever the order in which it
keeps them. -/
theorem list_of_perm {relative : Path} {named sorted : List (Name × Kind)}
    (hl : fs.list (root.join relative) = .ok named) (hp : named.Perm sorted)
    (hn : (named.map (·.1)).Nodup) (hs : sorted.Pairwise fun a b => byName a b = true) :
    (list fs root relative).result =
      (sorted.foldlM (classify fs root relative) ⟨[], []⟩).result := by
  have hsort : named.mergeSort byName = sorted :=
    (Name.mergeSort_eq_of_perm hp hn).trans (List.mergeSort_of_pairwise hs)
  rw [list, Logged.result_bind, Logged.result_quiet, hl, ← hsort]
  rfl

theorem list_sample : (list sample ⟨[slash]⟩ .empty).result =
    .ok ⟨[.relative [nameB], .relative [nameC]], [.relative [nameA]]⟩ := by
  have hsorted : [(nameA, Kind.directory), (nameB, .file), (nameC, .link),
      (nameD, .special)].Pairwise fun a b => byName a b = true := by decide
  rw [list_of_perm rfl (by decide) (by decide) hsorted]
  rfl

/-- The directory of the sample is listed alike from the top and as a root of its own. -/
theorem list_sample_below {root relative : Path}
    (hl : sample.list (root.join relative) = .ok [(nameB, .file), (nameC, .link)])
    (hlink : sample.isDirectory ((root.join relative).join (.ofName nameC)) = true) :
    (list sample root relative).result = .ok ⟨[relative.join (.ofName nameB)], []⟩ := by
  rw [list_of_perm hl (.refl _) (by decide) (by decide)]
  simp only [List.foldlM, classify, hlink]
  rfl

theorem scan_sample : ∃ s, (Snapshot.scan sample ⟨[slash]⟩).result = .ok s := by
  have hbelow : (list sample ⟨[slash]⟩ (.relative [nameA])).result = _ :=
    list_sample_below rfl rfl
  have hrounds : Rounds sample ⟨[slash]⟩ [.empty] .empty _ _ _ :=
    .round list_sample (.cons rfl (.cons rfl .nil)) (.round hbelow (.cons rfl .nil) (.done _))
  exact ⟨_, (scan_result_of_check rfl).trans (hrounds.run (by decide))⟩

theorem scan_sample_below : ∃ s, (Snapshot.scan sample ⟨[slash, 0x61]⟩).result = .ok s := by
  have hlist : (list sample ⟨[slash, 0x61]⟩ .empty).result = _ := list_sample_below rfl rfl
  have hrounds : Rounds sample ⟨[slash, 0x61]⟩ [.empty] .empty _ _ _ :=
    .round hlist (.cons rfl .nil) (.done _)
  exact ⟨_, (scan_result_of_check rfl).trans (hrounds.run (by decide))⟩

section Scanned

variable {s : Snapshot}

theorem scan_recorded (h : (Snapshot.scan fs root).result = .ok s) :
    s.records = (entries fs root).map (recordAt fs root) ∧
      ∀ names, IsEntry fs root names →
        fs.contents (root.join (.relative names)) = .ok (bytesAt fs root names) := by
  obtain ⟨-, events, hw, -⟩ := scan_eq_ok h
  obtain ⟨hrec, hall⟩ := records_of_readAs (walk_eq_ok hw).2
  refine ⟨by rw [hrec, entries, List.map_map]; rfl, fun names he => ?_⟩
  obtain ⟨p, hp, rfl⟩ := List.mem_map.1 (mem_entries.2 he)
  exact hall p hp

/-- A path of an entry finds the record of the entry, however it is spelled. -/
theorem get?_of_isEntry (h : (Snapshot.scan fs root).result = .ok s) {names : List Name}
    (he : IsEntry fs root names) {path : Path} (hp : (Path.relative names).Same path) :
    s.get? path = some (recordAt fs root names) := by
  rw [Snapshot.get?_eq_some_iff, (scan_recorded h).1]
  exact ⟨List.mem_map_of_mem (mem_entries.2 he), hp⟩

theorem get?_of_no_entry (h : (Snapshot.scan fs root).result = .ok s) {path : Path}
    (hp : ∀ names, IsEntry fs root names → ¬ (Path.relative names).Same path) :
    s.get? path = none := by
  rw [Snapshot.get?_eq_none_iff, (scan_recorded h).1]
  intro r hr
  obtain ⟨names, hn, rfl⟩ := List.mem_map.1 hr
  exact hp names (mem_entries.1 hn)

theorem size_eq (h : (Snapshot.scan fs root).result = .ok s) :
    s.size = (entries fs root).length := by
  rw [Snapshot.size, (scan_recorded h).1, List.length_map]

theorem totalBytes_eq (h : (Snapshot.scan fs root).result = .ok s) :
    s.totalBytes = ((entries fs root).map fun names => (bytesAt fs root names).length).sum := by
  rw [Snapshot.totalBytes_eq_sum, (scan_recorded h).1, List.map_map]
  rfl

/-- The rounds of a scan list the root and every directory that it met, once each. -/
theorem scan_rounds (h : (Snapshot.scan fs root).result = .ok s) :
    ∃ visited, Rounds fs root [.empty] .empty visited s.records s ∧
      visited.length ≤ fs.top.directories + 1 ∧
      visited.Perm (.empty :: (((fs.tree root).inventory []).filter
        fun p => p.2.kind = .directory).map fun p => .relative p.1) := by
  obtain ⟨hk, events, hw, -⟩ := scan_eq_ok h
  have htree := kind_tree hk
  have hrounds := walk_rounds rfl htree hw .empty
  have hs : s.records.foldl Snapshot.insert .empty = s := Snapshot.ofList_records_self s
  rw [hs] at hrounds
  refine ⟨_, hrounds, ?_, ?_⟩
  · rw [List.length_map, length_listed]
    exact fs.tree_directories_le root
  · have hperm : (listed fs root ([], fs.tree root)).Perm ([] :: foldersBelow ([], fs.tree root)) :=
      listed_perm htree
    have hpaths := hperm.map Path.relative
    rwa [List.map_cons, foldersBelow, List.map_map] at hpaths

/-- A record that a scan adds is of a new place, so it never replaces or moves another. -/
theorem insert_of_prefix {before after : List Record} {r : Record}
    (h : s.records = before ++ r :: after) :
    (before.foldl Snapshot.insert .empty).get? r.path = none ∧
      ((before.foldl Snapshot.insert .empty).insert r).records = before ++ [r] := by
  have hdistinct := s.distinct
  rw [h] at hdistinct
  obtain ⟨hbefore, -, hnew⟩ := List.pairwise_append.1 hdistinct
  have hrecords : (before.foldl Snapshot.insert .empty).records = before :=
    Snapshot.ofList_records hbefore
  have hfresh : ∀ old ∈ (before.foldl Snapshot.insert .empty).records, ¬ old.path.Same r.path := by
    rw [hrecords]
    exact fun old hold => hnew old hold r List.mem_cons_self
  refine ⟨Snapshot.get?_eq_none_iff.2 hfresh, ?_⟩
  rw [Snapshot.insert_records_of_new hfresh, hrecords]

/-- A scan that ends well has each entry as one record, each directory as one listing
and all else that it met as one event. -/
theorem scan_accounts (h : (Snapshot.scan fs root).result = .ok s) :
    (s.records.Pairwise fun a b => ¬ a.path.Same b.path) ∧
    (∀ before r after, s.records = before ++ r :: after →
      (before.foldl Snapshot.insert .empty).get? r.path = none ∧
        ((before.foldl Snapshot.insert .empty).insert r).records = before ++ [r]) ∧
    (∀ path, path ∈ s.records.map (·.path) ↔
      ∃ names, IsEntry fs root names ∧ path = .relative names) ∧
    (∀ names, IsEntry fs root names →
      fs.contents (root.join (.relative names)) = .ok (bytesAt fs root names) ∧
        ∀ path, (Path.relative names).Same path → s.get? path = some ⟨.relative names,
          ⟨Metro.digest (bytesAt fs root names), (bytesAt fs root names).length⟩⟩) ∧
    (∀ path, (∀ names, IsEntry fs root names → ¬ (Path.relative names).Same path) →
      s.get? path = none) ∧
    ∃ met : List (List Name × Node),
      (met.map (·.1)).Nodup ∧
      (∀ names node, (names, node) ∈ met ↔
        names ≠ [] ∧ (fs.tree root).find? names = some node) ∧
      s.records.map (·.path) = (readable fs root met).map (fun p => .relative p.1) ∧
      s.size = (readable fs root met).length ∧
      s.totalBytes = ((readable fs root met).map fun p => (bytesAt fs root p.1).length).sum ∧
      (∃ visited, Rounds fs root [.empty] .empty visited s.records s ∧
        visited.length ≤ fs.top.directories + 1 ∧
        visited.Perm (.empty ::
          (met.filter fun p => p.2.kind = .directory).map fun p => .relative p.1)) ∧
      (Snapshot.scan fs root).events =
        ⟨.debug, target, "Scanning " ++ fs.describe root⟩ ::
          (met.filterMap (notice? fs root) ++
            [⟨.info, target, "Scanned " ++ Numeral.decimal s.size ++ " files ("
              ++ Numeral.decimal s.totalBytes ++ " bytes) under " ++ fs.describe root⟩]) := by
  obtain ⟨hrecords, hcontents⟩ := scan_recorded h
  obtain ⟨-, events, hw, hevents⟩ := scan_eq_ok h
  obtain ⟨rfl, -⟩ := walk_eq_ok hw
  have hpaths : s.records.map (·.path) = (entries fs root).map .relative := by
    rw [hrecords, List.map_map]
    rfl
  refine ⟨s.distinct, fun _ _ _ => insert_of_prefix, fun path => ?_, fun names he =>
    ⟨hcontents names he, fun path => get?_of_isEntry h he⟩, fun path => get?_of_no_entry h,
    (fs.tree root).inventory [], Node.nodup_inventory (fs.tree_distinct root) [],
    fun _ _ => mem_inventory_root, ?_, ?_, ?_, scan_rounds h, hevents⟩
  · rw [hpaths, List.mem_map]
    simp only [mem_entries, eq_comm]
  · rw [hpaths, entries, List.map_map]
    rfl
  · rw [size_eq h, entries, List.length_map]
  · rw [totalBytes_eq h, entries, List.map_map]
    rfl

end Scanned

theorem sample_accounts : ∃ s, (Snapshot.scan sample ⟨[slash]⟩).result = .ok s ∧
    s.get? (.relative [nameA, nameB]) =
      some (recordAt sample ⟨[slash]⟩ [nameA, nameB]) := by
  obtain ⟨s, hs⟩ := scan_sample
  have he : IsEntry sample ⟨[slash]⟩ [nameA, nameB] :=
    ⟨by simp, .file .all [], rfl, rfl⟩
  obtain ⟨-, -, -, hget, -⟩ := scan_accounts hs
  exact ⟨s, hs, (hget _ he).2 _ rfl⟩

end TreeCompare.Scan
