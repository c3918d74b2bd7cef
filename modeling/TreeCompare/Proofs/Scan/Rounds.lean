import TreeCompare.Proofs.Scan.Refinement

/-!
# The rounds of a scan

Each round of a scan takes the first pending directory, lists it, reads its files
into the snapshot and puts its subdirectories before all other pending ones. The
rounds of a whole scan visit every directory of the tree once, and what they add to
the snapshot are the records of the recursive walk in their order.
-/
namespace TreeCompare

open Node (children)

namespace Scan

variable {fs : FileSystem} {root : Path}

/-- Rounds from pending directories and a snapshot to the end, with the directories
that they visit, the records that they read and the snapshot in the end. -/
inductive Rounds (fs : FileSystem) (root : Path) :
    List Path → Snapshot → List Path → List Record → Snapshot → Prop
  | done (s : Snapshot) : Rounds fs root [] s [] [] s
  | round {relative : Path} {pending visited : List Path} {s t : Snapshot} {listing : Listing}
      {own later : List Record} :
      (Scan.list fs root relative).result = .ok listing →
      List.Forall₂ (fun path r => Record.read fs root path = .ok r) listing.files own →
      Rounds fs root (listing.directories ++ pending) (own.foldl Snapshot.insert s)
        visited later t →
      Rounds fs root (relative :: pending) s (relative :: visited) (own ++ later) t

theorem readFiles_result {files : List Path} {records : List Record} (s : Snapshot)
    (h : List.Forall₂ (fun path r => Record.read fs root path = .ok r) files records) :
    (readFiles fs root s files).result = .ok (records.foldl Snapshot.insert s) := by
  induction h generalizing s with
  | nil => rfl
  | cons hr _ ih =>
      rw [readFiles, Logged.result_bind, Logged.result_quiet, hr]
      exact ih _

/-- A scan with enough budget goes through these rounds. -/
theorem Rounds.run {pending visited : List Path} {s t : Snapshot} {records : List Record}
    (h : Rounds fs root pending s visited records t) {budget : Nat}
    (hb : visited.length ≤ budget) : (Scan.run fs root budget pending s).result = .ok t := by
  induction h generalizing budget with
  | done s => rw [Scan.run]; rfl
  | round hlist hown _ ih =>
      obtain ⟨budget, rfl⟩ := Nat.exists_eq_add_of_le' (Nat.lt_of_lt_of_le (Nat.succ_pos _) hb)
      rw [Scan.run, Logged.result_bind, hlist]
      change (readFiles fs root _ _ >>= _).result = _
      rw [Logged.result_bind, readFiles_result _ hown]
      exact ih (Nat.le_of_succ_le_succ hb)

theorem scan_result_of_check (h : checkRoot fs root = .ok ()) :
    (Snapshot.scan fs root).result =
      (run fs root (fs.top.directories + 1) [.empty] .empty).result := by
  rw [Snapshot.scan]
  simp only [Logged.result_bind, Logged.result_log, Logged.result_quiet, h]
  cases (run fs root (fs.top.directories + 1) [.empty] .empty).result <;> rfl

theorem Rounds.append {pending visited rest visited' : List Path} {s t u : Snapshot}
    {records records' : List Record} (h : Rounds fs root pending s visited records t)
    (h' : Rounds fs root rest t visited' records' u) :
    Rounds fs root (pending ++ rest) s (visited ++ visited') (records ++ records') u := by
  induction h with
  | done s => exact h'
  | round hlist hown _ ih =>
      have hlater := ih h'
      rw [List.append_assoc] at hlater
      rw [List.append_assoc]
      exact .round hlist hown hlater

/-- Everything that the rounds read is inserted in the order of reading. -/
theorem Rounds.records {pending visited : List Path} {s t : Snapshot} {records : List Record}
    (h : Rounds fs root pending s visited records t) : t = records.foldl Snapshot.insert s := by
  induction h with
  | done s => rfl
  | round _ _ _ ih => rw [ih, List.foldl_append]

def Task.listed? : Task → Option (List Name)
  | .list names => some names
  | .read _ => none

/-- The places that the walk of an object lists, in order. -/
def listed (fs : FileSystem) (root : Path) (p : List Name × Node) : List (List Name) :=
  (tasks fs root p.1 p.2).filterMap Task.listed?

theorem listed_directory (names : List Name) (mode : Mode) (entries : Entries) :
    listed fs root (names, .directory mode entries) =
      names :: (children names entries).flatMap (listed fs root) := by
  have hreads (ps : List (List Name × Node)) :
      (ps.map fun p => Task.read p.1).filterMap Task.listed? = [] := by
    rw [List.filterMap_map]
    exact List.filterMap_eq_nil_iff.2 fun _ _ => rfl
  have hfirst : Task.listed? (.list names) = some names := rfl
  rw [listed, tasks_directory, List.cons_append, List.filterMap_cons_some hfirst,
    List.filterMap_append, hreads, List.filterMap_flatMap]
  rfl

theorem listed_of_kind_ne {p : List Name × Node} (h : p.2.kind ≠ .directory) :
    listed fs root p = [] := by
  rw [listed, tasks_of_kind_ne h]
  rfl

/-- What yields nothing for objects that are no directories is yielded by directories. -/
theorem flatMap_directories {α : Type} {f : List Name × Node → List α}
    (h : ∀ p, p.2.kind ≠ .directory → f p = []) (ps : List (List Name × Node)) :
    (ps.filter fun p => p.2.kind = .directory).flatMap f = ps.flatMap f := by
  induction ps with
  | nil => rfl
  | cons p ps ih =>
      by_cases hk : p.2.kind = .directory
      · rw [List.filter_cons_of_pos (by simpa using hk), List.flatMap_cons, List.flatMap_cons, ih]
      · rw [List.filter_cons_of_neg (by simpa using hk), List.flatMap_cons, h p hk,
          List.nil_append, ih]

theorem length_listed (p : List Name × Node) : (listed fs root p).length = p.2.directories := by
  obtain ⟨names, node⟩ := p
  induction node using Node.entriesInduction generalizing names with
  | other node hk =>
      rw [listed_of_kind_ne hk]
      cases node with
      | directory mode entries => exact absurd rfl hk
      | _ => rfl
  | directory mode entries ih =>
      have hlength : (((children names entries).filter fun p => p.2.kind = .directory).map
          fun p => (listed fs root p).length) =
          ((children names entries).filter fun p => p.2.kind = .directory).map
            fun p => p.2.directories := by
        refine List.map_congr_left fun p hp => ?_
        obtain ⟨n, -, he⟩ := Node.mem_children.1 (List.mem_filter.1 hp).1
        exact ih _ he p.1
      rw [listed_directory, ← flatMap_directories fun _ => listed_of_kind_ne, List.length_cons,
        List.length_flatMap, hlength, Node.sum_directories_children, Node.directories]

theorem read_of_readAs {ps : List (List Name × Node)} {records : List Record}
    (hps : ∀ p ∈ ps, (fs.tree root).find? p.1 = some p.2 ∧ role fs root p = .content)
    (h : List.Forall₂ (ReadAs fs root) ps records) :
    List.Forall₂ (fun path r => Record.read fs root path = .ok r)
      (ps.map fun p => .relative p.1) records := by
  induction h with
  | nil => exact .nil
  | @cons p r ps records hr _ ih =>
      obtain ⟨⟨hf, hrole⟩, hrest⟩ := List.forall_mem_cons.1 hps
      obtain ⟨bytes, hbytes, rfl⟩ := hr
      refine .cons ?_ (ih hrest)
      have hperform := read_eq hf hrole
      rw [Task.perform, hbytes] at hperform
      cases hread : Record.read fs root (.relative p.1) with
      | error e => simp [hread, Except.mapError, Except.map, bind, Except.bind, pure,
          Except.pure] at hperform
      | ok r =>
          rw [hread] at hperform
          obtain rfl := List.singleton_inj.1 (Except.ok.inj hperform)
          rfl

theorem flatMapM_rounds {ps : List (List Name × Node)} {events : List Log.Event}
    {records : List Record}
    (hwalk : ∀ p ∈ ps, ∀ events records s, walk fs root p.1 p.2 = ⟨events, .ok records⟩ →
      Rounds fs root [.relative p.1] s ((listed fs root p).map .relative) records
        (records.foldl Snapshot.insert s))
    (h : ps.flatMapM (fun p => walk fs root p.1 p.2) = ⟨events, .ok records⟩) (s : Snapshot) :
    Rounds fs root (ps.map fun p => .relative p.1) s
      ((ps.flatMap (listed fs root)).map .relative) records
      (records.foldl Snapshot.insert s) := by
  induction ps generalizing events records s with
  | nil =>
      cases h
      exact .done s
  | cons p ps ih =>
      obtain ⟨hp, hps⟩ := List.forall_mem_cons.1 hwalk
      obtain ⟨before, own, after, others, hfirst, hothers, rfl, rfl⟩ := flatMapM_cons_eq_ok h
      rw [List.flatMap_cons, List.map_append, List.foldl_append]
      exact (hp _ _ s hfirst).append (ih hps hothers _)

/-- A walk that ends well is a sequence of rounds from its directory alone. -/
theorem walk_rounds {names : List Name} {node : Node} {events : List Log.Event}
    {records : List Record} (hf : (fs.tree root).find? names = some node)
    (hk : node.kind = .directory) (h : walk fs root names node = ⟨events, .ok records⟩)
    (s : Snapshot) :
    Rounds fs root [.relative names] s ((listed fs root (names, node)).map .relative) records
      (records.foldl Snapshot.insert s) := by
  induction node using Node.entriesInduction generalizing names events records s with
  | other node hne => exact absurd hk hne
  | directory mode entries ih =>
      obtain ⟨own, after, below, ⟨yield, hlist⟩, hreads, hwalks, rfl, rfl⟩ :=
        walk_directory_eq_ok h
      have hlisting : (Scan.list fs root (.relative names)).result =
          .ok (Listing.of fs root (children names entries)) := by
        rw [list_eq hf, hlist]
        rfl
      rw [← flatMapM_walk_directories] at hwalks
      rw [listed_directory, ← flatMap_directories fun _ => listed_of_kind_ne, List.map_cons,
        List.foldl_append]
      refine .round hlisting (read_of_readAs (fun p hp => of_mem_readable hf hp) hreads) ?_
      rw [List.append_nil]
      refine flatMapM_rounds (fun p hp events records s hwalk => ?_) hwalks _
      obtain ⟨hp, hdir⟩ := List.mem_filter.1 hp
      obtain ⟨n, -, he⟩ := Node.mem_children.1 hp
      have hfound := Node.find?_children (fs.tree_distinct root) hf hp
      exact ih _ he hfound (of_decide_eq_true hdir) hwalk s

/-- The places of the directories that an object holds. -/
def foldersBelow (p : List Name × Node) : List (List Name) :=
  ((p.2.inventory p.1).filter fun q => q.2.kind = .directory).map (·.1)

/-- The walk of a directory lists its own place and those of the directories in it. -/
theorem listed_perm {p : List Name × Node} (hk : p.2.kind = .directory) :
    (listed fs root p).Perm (p.1 :: foldersBelow p) := by
  obtain ⟨names, node⟩ := p
  induction node using Node.entriesInduction generalizing names with
  | other node hne => exact absurd hk hne
  | directory mode entries ih =>
      let folders := (children names entries).filter fun p => p.2.kind = .directory
      have hempty (p : List Name × Node) (hne : p.2.kind ≠ .directory) : foldersBelow p = [] := by
        rw [foldersBelow, Node.inventory_of_kind_ne hne]
        rfl
      have hbelow : foldersBelow (names, .directory mode entries) =
          folders.map (·.1) ++ folders.flatMap foldersBelow := by
        rw [foldersBelow, Node.inventory_directory, List.filter_append, List.map_append,
          List.filter_flatMap, List.map_flatMap, flatMap_directories hempty]
        rfl
      have hlisted (p) (hp : p ∈ folders) :
          (listed fs root p).Perm (p.1 :: foldersBelow p) := by
        obtain ⟨hp, hdir⟩ := List.mem_filter.1 hp
        obtain ⟨n, -, he⟩ := Node.mem_children.1 hp
        exact ih _ he _ (of_decide_eq_true hdir)
      rw [listed_directory, hbelow, ← flatMap_directories fun _ => listed_of_kind_ne]
      refine List.Perm.cons _ ((List.Perm.flatMap_left _ hlisted).trans ?_)
      exact (List.map_append_flatMap_perm folders (·.1) foldersBelow).symm

end Scan

end TreeCompare
