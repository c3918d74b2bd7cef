import TreeCompare.Proofs.Scan.Records

/-!
# The first failing step

The steps of a walk stand in one list before any of them is tried: a directory's
listing, then the readings of its files, then the steps of its subdirectories. A
scan tries them in this order. It ends with the error of the first step that fails;
if none fails it has exactly the records that the steps yield, in their order.
-/
namespace TreeCompare

open Node (children)

namespace Scan

variable {fs : FileSystem} {root : Path}

/-- The steps of the walk of a directory, in order. -/
def tasks (fs : FileSystem) (root : Path) (names : List Name) : Node → List Task
  | .directory _ entries =>
      .list names :: (readable fs root (children names entries)).map (fun p => .read p.1) ++
        (children names entries).attach.flatMap fun ⟨p, _⟩ => tasks fs root p.1 p.2
  | _ => []
termination_by node => sizeOf node
decreasing_by next h => exact Node.sizeOf_lt_of_mem_children h

theorem tasks_directory (names : List Name) (mode : Mode) (entries : Entries) :
    tasks fs root names (.directory mode entries) =
      .list names :: (readable fs root (children names entries)).map (fun p => .read p.1) ++
        (children names entries).flatMap fun p => tasks fs root p.1 p.2 := by
  rw [tasks, List.flatMap_subtype (g := fun p => tasks fs root p.1 p.2) (fun _ _ => rfl),
    List.unattach_attach]

theorem tasks_of_kind_ne {node : Node} (h : node.kind ≠ .directory) (names : List Name) :
    tasks fs root names node = [] := by
  cases node with
  | directory mode entries => exact absurd rfl h
  | _ => rw [tasks]; nofun

theorem perform_list_cases (fs : FileSystem) (root : Path) (names : List Name) :
    (∃ e, Task.perform fs root (.list names) = .error e) ∨
      Task.perform fs root (.list names) = .ok [] := by
  rw [Task.perform]
  rcases fs.list (root.join (.relative names)) with cause | listed
  · exact .inl ⟨_, rfl⟩
  · exact .inr rfl

/-- A walk does its steps one after the other. -/
theorem walk_result (names : List Name) (node : Node) :
    (walk fs root names node).result =
      (tasks fs root names node).flatMapM (Task.perform fs root) := by
  induction node using Node.entriesInduction generalizing names with
  | other node hk => rw [walk_of_kind_ne hk, tasks_of_kind_ne hk]; rfl
  | directory mode entries ih =>
      have hbelow : (children names entries).flatMapM (fun p => (walk fs root p.1 p.2).result) =
          (children names entries).flatMapM fun p =>
            (tasks fs root p.1 p.2).flatMapM (Task.perform fs root) := by
        refine flatMapM_congr fun p hp => ?_
        obtain ⟨n, -, he⟩ := Node.mem_children.1 hp
        exact ih _ he p.1
      rw [walk_directory, tasks_directory, List.cons_append, List.flatMapM_cons,
        flatMapM_append, flatMapM_map_list, flatMapM_flatMap, ← hbelow]
      simp only [Logged.result_bind, Logged.result_quiet, result_flatMapM, bind_assoc, pure_bind]
      obtain ⟨e, hl⟩ | hl := perform_list_cases fs root names
      · rw [hl]
        rfl
      · rw [hl]
        rfl

/-- How a step fails: its path cannot be listed or cannot be opened. -/
def Task.Fails (fs : FileSystem) (root : Path) (e : ScanError) : Task → Prop
  | .list names =>
      ∃ cause, fs.list (root.join (.relative names)) = .error cause ∧
        e = .list (root.join (.relative names)) cause
  | .read names =>
      ∃ cause, fs.open (root.join (.relative names)) = .error cause ∧
        e = .file (.open (root.join (.relative names)) cause)

theorem perform_eq_error_iff {task : Task} {e : ScanError} :
    task.perform fs root = .error e ↔ task.Fails fs root e := by
  cases task with
  | list names =>
      rw [Task.perform, Task.Fails]
      cases fs.list (root.join (.relative names)) <;>
        simp [Except.mapError, bind, Except.bind, pure, Except.pure, eq_comm]
  | read names =>
      rw [Task.perform, Task.Fails, FileSystem.contents]
      cases fs.open (root.join (.relative names)) <;>
        simp [Except.mapError, Functor.map, Except.map, bind, Except.bind, pure, Except.pure,
          eq_comm]

theorem records_eq_error_iff {x : Except ScanError Snapshot} {e : ScanError} :
    Snapshot.records <$> x = .error e ↔ x = .error e := by
  cases x <;> simp [Functor.map, Except.map]

theorem records_eq_ok_iff {x : Except ScanError Snapshot} {s : Snapshot} :
    Snapshot.records <$> x = .ok s.records ↔ x = .ok s := by
  cases x with
  | error e => simp [Functor.map, Except.map]
  | ok t =>
      simp only [Functor.map, Except.map, Except.ok.injEq]
      exact ⟨Snapshot.eq_of_records_eq, congrArg _⟩

/-- A scan is a check of its root and then the recursive walk of it. It ends with the
error of the first step that fails, and has a snapshot if and only if no step fails,
with the records that the steps yield, in their order. -/
theorem scan_refines_walk (fs : FileSystem) (root : Path) :
    (Snapshot.records <$> (Snapshot.scan fs root).result =
      (do checkRoot fs root; (walk fs root [] (fs.tree root)).result)) ∧
    (∀ e, (Snapshot.scan fs root).result = .error e ↔
      (∃ cause, fs.kind root = .error cause ∧ e = .root root cause) ∨
      (∃ k, fs.kind root = .ok k ∧ k ≠ .directory ∧ e = .rootNotDirectory root) ∨
      (fs.kind root = .ok .directory ∧ ∃ done task rest,
        tasks fs root [] (fs.tree root) = done ++ task :: rest ∧
          (∀ t ∈ done, ∃ records, t.perform fs root = .ok records) ∧
          task.Fails fs root e)) ∧
    (∀ s, (Snapshot.scan fs root).result = .ok s ↔
      fs.kind root = .ok .directory ∧ ∃ yields,
        List.Forall₂ (fun task records => task.perform fs root = .ok records)
          (tasks fs root [] (fs.tree root)) yields ∧
        s.records = yields.flatten) := by
  have hrec := scan_records fs root
  refine ⟨hrec, fun e => ?_, fun s => ?_⟩
  · rw [← records_eq_error_iff, hrec, walk_result]
    obtain ⟨cause, hk, hc⟩ | ⟨k, hk, hne, hc⟩ | ⟨hk, hc⟩ := checkRoot_eq fs root
    · rw [hc, hk]
      simp [bind, Except.bind, eq_comm]
    · rw [hc, hk]
      simp [bind, Except.bind, hne, eq_comm]
    · rw [hc, hk]
      change List.flatMapM _ _ = _ ↔ _
      simp [flatMapM_eq_error_iff, perform_eq_error_iff]
  · rw [← records_eq_ok_iff, hrec, walk_result]
    obtain ⟨cause, hk, hc⟩ | ⟨k, hk, hne, hc⟩ | ⟨hk, hc⟩ := checkRoot_eq fs root
    · rw [hc, hk]
      simp [bind, Except.bind]
    · rw [hc, hk]
      simp [bind, Except.bind, hne]
    · rw [hc, hk]
      change List.flatMapM _ _ = _ ↔ _
      simp [flatMapM_eq_ok_iff]

end Scan

end TreeCompare
