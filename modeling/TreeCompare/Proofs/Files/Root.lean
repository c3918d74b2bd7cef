import TreeCompare.Proofs.Files.Following

/-!
# The tree under a root

A root stands for the directory that it names, with all that this directory holds.
If a path of names below the root leads to an object at all, it leads to the one
that these names lead to in the tree, so what a listing or an opening says of a
place below the root is what the tree holds there.
-/
namespace TreeCompare

/-- The bytes of an object; only files have any. -/
def Node.bytes : Node → List UInt8
  | .file _ content => content
  | _ => []

theorem Node.read_eq {node : Node} (h : node.kind ≠ .directory) : node.read = .ok node.bytes := by
  cases node with
  | directory mode entries => exact absurd rfl h
  | _ => rfl

namespace FileSystem

variable {fs : FileSystem}

/-- The directory that a root names; an empty one if the root cannot be followed. -/
def tree (fs : FileSystem) (root : Path) : Node :=
  match fs.lookup root with
  | .ok node => node
  | .error _ => .directory .all []

/-- What opening the object at a path yields. -/
def contents (fs : FileSystem) (path : Path) : Except IoError (List UInt8) :=
  Node.bytes <$> fs.open path

theorem tree_of_lookup {root : Path} {node : Node} (h : fs.lookup root = .ok node) :
    fs.tree root = node := by
  simp [tree, h]

theorem tree_distinct (fs : FileSystem) (root : Path) : (fs.tree root).Distinct := by
  cases h : fs.lookup root with
  | ok node =>
      rw [tree_of_lookup h]
      exact (lookup_known h).distinct
  | error e =>
      rw [tree, h]
      exact ⟨List.nodup_nil, trivial⟩

theorem tree_directories_le (fs : FileSystem) (root : Path) :
    (fs.tree root).directories ≤ fs.top.directories + 1 := by
  cases h : fs.lookup root with
  | ok node =>
      rw [tree_of_lookup h]
      exact (lookup_known h).directories_le
  | error e =>
      rw [tree, h]
      exact Nat.le_add_left _ _

/-- An empty root is followed nowhere, so it stands for an empty tree. -/
theorem root_ne_nil {root : Path} {names : List Name} {node : Node} (hn : names ≠ [])
    (h : (fs.tree root).find? names = some node) : root.bytes ≠ [] := by
  intro hroot
  obtain ⟨n, rest, rfl⟩ := List.exists_cons_of_ne_nil hn
  cases hl : fs.lookup root with
  | ok top => exact (lookup_eq_ok_iff.1 hl).2.1 hroot
  | error e => simp [tree, hl, Node.find?, Entries.find?] at h

/-- A path of names below a root leads to what the names lead to in the tree, if it
leads anywhere. Only a link may be followed further. -/
theorem lookup_relative {root : Path} {names : List Name} {node found : Node}
    (hf : (fs.tree root).find? names = some node) (hk : node.kind ≠ .link)
    (h : fs.lookup (root.join (.relative names)) = .ok found) : found = node := by
  induction names using List.reverseRecOn generalizing node found with
  | nil =>
      rw [tree_of_lookup (lookup_join_empty h)] at hf
      exact Option.some.inj hf
  | append_singleton names n ih =>
      have hroot := root_ne_nil (by simp) hf
      rw [Node.find?_append] at hf
      obtain ⟨parent, hparent, hn⟩ := Option.bind_eq_some_iff.1 hf
      rw [Path.join_relative_concat] at h
      obtain ⟨mode, entries, child, hl, hc, heq⟩ :=
        lookup_join_name (Path.join_ne_nil hroot (Path.relative_not_absolute names)) h
      have hkind : parent.kind ≠ .link := by
        rintro hlink
        cases parent with
        | link target => simp [Node.find?] at hn
        | _ => cases hlink
      rw [← ih hparent hkind hl, Node.find?_singleton, hc] at hn
      obtain rfl := Option.some.inj hn
      exact heq hk

theorem list_eq_ok {path : Path} {listed : List (Name × Kind)} (h : fs.list path = .ok listed) :
    ∃ mode entries, fs.lookup path = .ok (.directory mode entries) ∧
      listed = entries.map fun e => (e.1, e.2.kind) := by
  unfold list at h
  cases hl : fs.lookup path with
  | error e => simp [hl, bind, Except.bind] at h
  | ok node =>
      cases node with
      | directory mode entries =>
          simp only [hl, bind, Except.bind] at h
          split at h
          · exact ⟨mode, entries, rfl, (Except.ok.inj h).symm⟩
          · cases h
      | _ => simp [hl, bind, Except.bind] at h

theorem list_relative {root : Path} {names : List Name} {mode : Mode} {entries : Entries}
    {listed : List (Name × Kind)}
    (hf : (fs.tree root).find? names = some (.directory mode entries))
    (h : fs.list (root.join (.relative names)) = .ok listed) :
    listed = entries.map fun e => (e.1, e.2.kind) := by
  obtain ⟨mode', entries', hl, rfl⟩ := list_eq_ok h
  obtain ⟨-, rfl⟩ := Node.directory.inj (lookup_relative hf nofun hl)
  rfl

theorem open_eq_ok {path : Path} {node : Node} (h : fs.open path = .ok node) :
    fs.lookup path = .ok node := by
  unfold «open» at h
  cases hl : fs.lookup path with
  | error e => simp [hl, bind, Except.bind] at h
  | ok found =>
      simp only [hl, bind, Except.bind] at h
      split at h
      · cases h
      · split at h
        · cases h
        · exact congrArg _ (Except.ok.inj h)

end FileSystem

end TreeCompare
