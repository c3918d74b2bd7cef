import TreeCompare.Proofs.Digest.Pieces
import TreeCompare.Proofs.Files.Root
import TreeCompare.Proofs.Log.Sequence
import TreeCompare.Snapshot.Scan

/-!
# The recursive walk

A walk of a directory lists the whole of it, reads its files in the order of their
names and then walks its subdirectories in this order. It recurses on the tree
under the root and asks the file system only whether each step can be done. The
scan keeps a list of pending directories instead; `run_eq` says that this list is
nothing but the walks still to be done, one after the other.
-/
namespace TreeCompare

open Node (children)

namespace Scan

variable {fs : FileSystem} {root : Path}

/-- What a scan makes of an object below its root. -/
inductive Role
  | content
  | directory
  | directoryLink
  | special
deriving DecidableEq, Repr

def role (fs : FileSystem) (root : Path) (p : List Name × Node) : Role :=
  match p.2 with
  | .file _ _ => .content
  | .directory _ _ => .directory
  | .link _ =>
      if fs.isDirectory (root.join (.relative p.1)) then .directoryLink else .content
  | .special _ _ => .special

/-- The event that tells of an object that is left alone. -/
def notice? (fs : FileSystem) (root : Path) (p : List Name × Node) : Option Log.Event :=
  match role fs root p with
  | .directoryLink =>
      some ⟨.debug, target, "Not following directory link " ++ (Path.relative p.1).display⟩
  | .special => some ⟨.debug, target, "Skipping special file " ++ (Path.relative p.1).display⟩
  | _ => none

def readable (fs : FileSystem) (root : Path) (ps : List (List Name × Node)) :
    List (List Name × Node) :=
  ps.filter fun p => role fs root p = .content

/-- One step of a walk, at the place below the root that the names lead to. -/
inductive Task
  | list (names : List Name)
  | read (names : List Name)
deriving DecidableEq

/-- The records that a step yields; it fails with the path that it could not list or open. -/
def Task.perform (fs : FileSystem) (root : Path) : Task → Except ScanError (List Record)
  | .list names => do
      let path := root.join (.relative names)
      let _ ← (fs.list path).mapError (.list path)
      return []
  | .read names => do
      let path := root.join (.relative names)
      let bytes ← (fs.contents path).mapError fun cause => .file (.open path cause)
      return [⟨.relative names, .ofContent bytes⟩]

def walk (fs : FileSystem) (root : Path) (names : List Name) :
    Node → Logged ScanError (List Record)
  | .directory _ entries => do
      let _ ← Logged.quiet (Task.perform fs root (.list names))
      (⟨(children names entries).filterMap (notice? fs root), .ok ()⟩ : Logged ScanError Unit)
      let own ← (readable fs root (children names entries)).flatMapM fun p =>
        Logged.quiet (Task.perform fs root (.read p.1))
      let below ← (children names entries).attach.flatMapM fun ⟨p, _⟩ => walk fs root p.1 p.2
      return own ++ below
  | _ => return []
termination_by node => sizeOf node
decreasing_by next h => exact Node.sizeOf_lt_of_mem_children h

theorem walk_directory (names : List Name) (mode : Mode) (entries : Entries) :
    walk fs root names (.directory mode entries) = do
      let _ ← Logged.quiet (Task.perform fs root (.list names))
      (⟨(children names entries).filterMap (notice? fs root), .ok ()⟩ : Logged ScanError Unit)
      let own ← (readable fs root (children names entries)).flatMapM fun p =>
        Logged.quiet (Task.perform fs root (.read p.1))
      let below ← (children names entries).flatMapM fun p => walk fs root p.1 p.2
      return own ++ below := by
  rw [walk, List.flatMapM_subtype (g := fun p => walk fs root p.1 p.2) (fun _ _ => rfl),
    List.unattach_attach]

theorem walk_of_kind_ne {node : Node} (h : node.kind ≠ .directory) (names : List Name) :
    walk fs root names node = pure [] := by
  cases node with
  | directory mode entries => exact absurd rfl h
  | _ => rw [walk]; nofun

/-- What a listing keeps of objects: the paths of files and those of directories. -/
def Listing.of (fs : FileSystem) (root : Path) (ps : List (List Name × Node)) : Listing where
  files := (readable fs root ps).map fun p => .relative p.1
  directories := (ps.filter fun p => p.2.kind = .directory).map fun p => .relative p.1

theorem classify_eq (names : List Name) (listing : Listing) (n : Name) (node : Node) :
    classify fs root (.relative names) listing (n, node.kind) =
      ⟨(notice? fs root (names ++ [n], node)).toList,
        .ok ⟨listing.files ++ (Listing.of fs root [(names ++ [n], node)]).files,
          listing.directories ++ (Listing.of fs root [(names ++ [n], node)]).directories⟩⟩ := by
  have hpath : Path.relative (names ++ [n]) = (Path.relative names).join (.ofName n) :=
    Path.relative_concat names n
  cases node with
  | file mode content =>
      have hr : role fs root (names ++ [n], .file mode content) = .content := rfl
      simp [classify, Node.kind, notice?, Listing.of, readable, hr, hpath]
  | directory mode entries =>
      have hr : role fs root (names ++ [n], .directory mode entries) = .directory := rfl
      simp [classify, Node.kind, notice?, Listing.of, readable, hr, hpath]
  | special mode kind =>
      have hr : role fs root (names ++ [n], .special mode kind) = .special := rfl
      simp [classify, Node.kind, notice?, Listing.of, readable, hr, hpath, Logged.log]
  | link target' =>
      have hj := Path.join_relative_concat root names n
      unfold classify
      by_cases hd : fs.isDirectory (root.join (.relative (names ++ [n]))) = true
      · have hr : role fs root (names ++ [n], .link target') = .directoryLink := if_pos hd
        rw [hj] at hd
        simp [Node.kind, notice?, Listing.of, readable, hr, hd, hpath, Logged.log]
      · have hr : role fs root (names ++ [n], .link target') = .content := if_neg hd
        rw [hj] at hd
        simp [Node.kind, notice?, Listing.of, readable, hr, hd, hpath]

theorem foldlM_classify (names : List Name) (es : Entries) (listing : Listing) :
    (es.map fun e => (e.1, e.2.kind)).foldlM (classify fs root (.relative names)) listing =
      let ps := es.map fun e => (names ++ [e.1], e.2)
      ⟨ps.filterMap (notice? fs root),
        .ok ⟨listing.files ++ (Listing.of fs root ps).files,
          listing.directories ++ (Listing.of fs root ps).directories⟩⟩ := by
  induction es generalizing listing with
  | nil => simp [Listing.of, readable]
  | cons e es ih =>
      rw [List.map_cons, List.foldlM_cons, classify_eq, Logged.bind_ok, ih]
      cases h : notice? fs root (names ++ [e.1], e.2) <;>
        simp [h, Listing.of, readable, List.filter_cons] <;> split_ifs <;> simp

/-- A directory of the tree is listed in one step: either it cannot be listed, or the
listing keeps what the tree holds there, in the order of the names. -/
theorem list_eq {names : List Name} {mode : Mode} {entries : Entries}
    (hf : (fs.tree root).find? names = some (.directory mode entries)) :
    Scan.list fs root (.relative names) =
      Logged.quiet (Task.perform fs root (.list names)) >>= fun _ =>
        ⟨(children names entries).filterMap (notice? fs root),
          .ok (Listing.of fs root (children names entries))⟩ := by
  rw [Scan.list]
  cases hl : fs.list (root.join (.relative names)) with
  | error cause =>
      simp [Task.perform, hl, Logged.quiet, Except.mapError, bind, Except.bind, Logged.bind]
  | ok listed =>
      obtain rfl := FileSystem.list_relative hf hl
      have hsort : (entries.map fun e => (e.1, e.2.kind)).mergeSort byName =
          (Entries.sorted entries).map fun e => (e.1, e.2.kind) :=
        (List.map_mergeSort (r := fun a b => decide (a.1.bytes ≤ b.1.bytes)) (s := byName)
          (f := fun e : Name × Node => (e.1, e.2.kind)) fun _ _ _ _ => rfl).symm
      have hlist : Task.perform fs root (.list names) = .ok [] := by
        rw [Task.perform, hl]
        rfl
      rw [hlist]
      change List.foldlM _ _ (List.mergeSort _ byName) = _
      rw [hsort, foldlM_classify]
      rfl

/-- No file that a walk reads turns out to be a directory: a link to one is no file,
and what stands in the tree as a file is opened as that file. -/
theorem kind_of_open {names : List Name} {node opened : Node}
    (hf : (fs.tree root).find? names = some node) (hr : role fs root (names, node) = .content)
    (h : fs.open (root.join (.relative names)) = .ok opened) : opened.kind ≠ .directory := by
  have hl := FileSystem.open_eq_ok h
  cases node with
  | file mode content =>
      rw [FileSystem.lookup_relative hf nofun hl]
      nofun
  | link target' =>
      intro hk
      have hd : fs.isDirectory (root.join (.relative names)) = true := by
        simp [FileSystem.isDirectory, hl, hk]
      simp [role, hd] at hr
  | _ => cases hr

theorem read_eq {names : List Name} {node : Node}
    (hf : (fs.tree root).find? names = some node)
    (hr : role fs root (names, node) = .content) :
    Task.perform fs root (.read names) =
      ((Record.read fs root (.relative names)).mapError .file).map fun r => [r] := by
  rw [Task.perform, Record.read, FileSystem.contents]
  cases ho : fs.open (root.join (.relative names)) with
  | error cause => rfl
  | ok opened =>
      have hread := Node.read_eq (kind_of_open hf hr ho)
      simp [hread, Except.mapError, Except.map, Functor.map, bind, Except.bind, pure, Except.pure,
        Fingerprint.ofReads_reads]

theorem readFiles_eq {ps : List (List Name × Node)} (s : Snapshot)
    (hps : ∀ p ∈ ps, (fs.tree root).find? p.1 = some p.2 ∧ role fs root p = .content) :
    readFiles fs root s (ps.map fun p => .relative p.1) = do
      let records ← ps.flatMapM fun p => Logged.quiet (Task.perform fs root (.read p.1))
      return records.foldl Snapshot.insert s := by
  induction ps generalizing s with
  | nil => simp [readFiles]
  | cons p ps ih =>
      obtain ⟨hp, hps⟩ := List.forall_mem_cons.1 hps
      rw [List.map_cons, readFiles, List.flatMapM_cons, read_eq hp.1 hp.2]
      cases hread : Record.read fs root (.relative p.1) with
      | error e => simp [Logged.quiet, Except.mapError, Except.map]
      | ok r =>
          change pure r >>= _ = (pure [r] >>= _) >>= _
          rw [pure_bind, pure_bind, ih _ hps, bind_assoc]
          simp only [pure_bind, List.singleton_append, List.foldl_cons]

/-- Objects that are no directories add nothing to a walk. -/
theorem flatMapM_walk_directories (ps : List (List Name × Node)) :
    (ps.filter fun p => p.2.kind = .directory).flatMapM (fun p => walk fs root p.1 p.2) =
      ps.flatMapM fun p => walk fs root p.1 p.2 := by
  induction ps with
  | nil => rfl
  | cons p ps ih =>
      by_cases hk : p.2.kind = .directory
      · rw [List.filter_cons_of_pos (by simpa using hk), List.flatMapM_cons, List.flatMapM_cons,
          ih]
      · rw [List.filter_cons_of_neg (by simpa using hk), List.flatMapM_cons,
          walk_of_kind_ne hk, pure_bind, ih]
        simp only [List.nil_append, bind_pure]

/-- A pending directory: where it is and what the tree holds there. -/
def Pending (fs : FileSystem) (root : Path) (p : List Name × Node) : Prop :=
  (fs.tree root).find? p.1 = some p.2 ∧ p.2.kind = .directory

theorem of_mem_readable {names : List Name} {mode : Mode} {entries : Entries}
    (hf : (fs.tree root).find? names = some (.directory mode entries)) {p : List Name × Node}
    (hp : p ∈ readable fs root (children names entries)) :
    (fs.tree root).find? p.1 = some p.2 ∧ role fs root p = .content := by
  obtain ⟨hp, hr⟩ := List.mem_filter.1 hp
  exact ⟨Node.find?_children (fs.tree_distinct root) hf hp, of_decide_eq_true hr⟩

/-- One round of the scan: the first pending directory is listed, its files are read,
and its subdirectories become pending before all others. -/
theorem run_step {names : List Name} {mode : Mode} {entries : Entries} (budget : Nat)
    (pending : List Path) (s : Snapshot)
    (hf : (fs.tree root).find? names = some (.directory mode entries)) :
    run fs root (budget + 1) (.relative names :: pending) s = (do
      let _ ← Logged.quiet (Task.perform fs root (.list names))
      (⟨(children names entries).filterMap (notice? fs root), .ok ()⟩ : Logged ScanError Unit)
      let own ← (readable fs root (children names entries)).flatMapM fun p =>
        Logged.quiet (Task.perform fs root (.read p.1))
      run fs root budget ((Listing.of fs root (children names entries)).directories ++ pending)
        (own.foldl Snapshot.insert s)) := by
  have hread := readFiles_eq s fun p hp => of_mem_readable hf hp
  rw [run, list_eq hf, bind_assoc]
  congr 1
  funext _
  -- the listing is known, so only its events remain of it
  change (⟨_, .ok ()⟩ : Logged ScanError Unit) >>= (fun _ =>
    readFiles fs root s (Listing.of fs root (children names entries)).files >>= _) = _
  rw [show (Listing.of fs root (children names entries)).files =
    (readable fs root (children names entries)).map fun p => .relative p.1 from rfl, hread]
  simp only [bind_assoc, pure_bind]

/-- Listing pending directories within the budget is walking them one after the other,
and adding all their records in the end. -/
theorem run_eq {budget : Nat} {ps : List (List Name × Node)} (s : Snapshot)
    (hps : ∀ p ∈ ps, Pending fs root p)
    (hb : (ps.map fun p => p.2.directories).sum ≤ budget) :
    run fs root budget (ps.map fun p => .relative p.1) s = do
      let records ← ps.flatMapM fun p => walk fs root p.1 p.2
      return records.foldl Snapshot.insert s := by
  induction budget generalizing ps s with
  | zero =>
      cases ps with
      | nil => simp [run]
      | cons p ps =>
          obtain ⟨names, node⟩ := p
          cases node with
          | directory mode entries => simp [Node.directories] at hb
          | _ => cases (hps _ List.mem_cons_self).2
  | succ budget ih =>
      cases ps with
      | nil => simp [run]
      | cons p ps =>
          obtain ⟨names, node⟩ := p
          obtain ⟨⟨hf, hk⟩, hrest⟩ := List.forall_mem_cons.1 hps
          cases node with
          | directory mode entries =>
              let below := (children names entries).filter fun p => p.2.kind = .directory
              have hpending (p) (hp : p ∈ below ++ ps) : Pending fs root p := by
                rcases List.mem_append.1 hp with hp | hp
                · obtain ⟨hp, hk⟩ := List.mem_filter.1 hp
                  exact ⟨Node.find?_children (fs.tree_distinct root) hf hp, of_decide_eq_true hk⟩
                · exact hrest p hp
              have hbudget : ((below ++ ps).map fun p => p.2.directories).sum ≤ budget := by
                rw [List.map_append, List.sum_append, Node.sum_directories_children]
                rw [List.map_cons, List.sum_cons, Node.directories] at hb
                omega
              have hpaths : (Listing.of fs root (children names entries)).directories ++
                  (ps.map fun p => Path.relative p.1) =
                    (below ++ ps).map fun p => .relative p.1 := by
                rw [List.map_append]
                rfl
              rw [List.map_cons, run_step budget _ s hf, List.flatMapM_cons, walk_directory, hpaths]
              simp only [ih _ hpending hbudget, flatMapM_append, below, flatMapM_walk_directories,
                bind_assoc, pure_bind, List.foldl_append]
          | _ => cases hk

theorem kind_tree (h : fs.kind root = .ok .directory) : (fs.tree root).kind = .directory := by
  cases hl : fs.lookup root with
  | error e => simp [FileSystem.tree, hl, Node.kind]
  | ok node =>
      obtain ⟨-, hne, -⟩ := FileSystem.lookup_eq_ok_iff.1 hl
      rw [FileSystem.kind, hl] at h
      rw [FileSystem.tree_of_lookup hl]
      simpa [hne, Functor.map, Except.map] using h

theorem checkRoot_eq (fs : FileSystem) (root : Path) :
    (∃ cause, fs.kind root = .error cause ∧ checkRoot fs root = .error (.root root cause)) ∨
    (∃ k, fs.kind root = .ok k ∧ k ≠ .directory ∧
      checkRoot fs root = .error (.rootNotDirectory root)) ∨
    (fs.kind root = .ok .directory ∧ checkRoot fs root = .ok ()) := by
  unfold checkRoot
  rcases fs.kind root with cause | k
  · exact .inl ⟨cause, rfl, rfl⟩
  · cases k <;> simp

/-- Scanning a root is checking it and walking the tree under it. -/
theorem scan_eq (fs : FileSystem) (root : Path) :
    Snapshot.scan fs root = (do
      Logged.log .debug target ("Scanning " ++ fs.describe root)
      Logged.quiet (checkRoot fs root)
      let records ← walk fs root [] (fs.tree root)
      let s := Snapshot.ofList records
      Logged.log .info target ("Scanned " ++ Numeral.decimal s.size ++ " files ("
        ++ Numeral.decimal s.totalBytes ++ " bytes) under " ++ fs.describe root)
      return s) := by
  unfold Snapshot.scan
  congr 1
  funext _
  obtain ⟨cause, -, hc⟩ | ⟨k, -, -, hc⟩ | ⟨hk, hc⟩ := checkRoot_eq fs root
  · rw [hc]
    rfl
  · rw [hc]
    rfl
  · have hpending : ∀ p ∈ [(([] : List Name), fs.tree root)], Pending fs root p := by
      intro p hp
      rw [List.mem_singleton.1 hp]
      exact ⟨rfl, kind_tree hk⟩
    have hbudget := fs.tree_directories_le root
    have hrun := run_eq .empty hpending (by simpa using hbudget)
    rw [List.map_singleton, Path.relative_nil] at hrun
    rw [hrun]
    simp only [List.flatMapM_cons, List.flatMapM_nil, bind_assoc, pure_bind, List.append_nil]
    rfl

end Scan

end TreeCompare
