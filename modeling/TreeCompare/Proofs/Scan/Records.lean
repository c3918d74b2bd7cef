import TreeCompare.Proofs.Scan.Walk
import TreeCompare.Proofs.Snapshot.Collect

/-!
# The records of a walk

A walk that ends well has read everything in the inventory of its directory that
counts as a file, once each and in order, and has left an event for everything that
it left alone. The places of an inventory differ, so the records are of different
places and a snapshot takes them up as they are.
-/
namespace TreeCompare.Scan

open Node (children)

variable {fs : FileSystem} {root : Path}

/-- The record that reading an object yields. -/
def ReadAs (fs : FileSystem) (root : Path) (p : List Name × Node) (r : Record) : Prop :=
  ∃ bytes, fs.contents (root.join (.relative p.1)) = .ok bytes ∧
    r = ⟨.relative p.1, .ofContent bytes⟩

theorem perform_read_eq_ok {names : List Name} {records : List Record}
    (h : Task.perform fs root (.read names) = .ok records) :
    ∃ bytes, fs.contents (root.join (.relative names)) = .ok bytes ∧
      records = [⟨.relative names, .ofContent bytes⟩] := by
  rw [Task.perform] at h
  cases hc : fs.contents (root.join (.relative names)) with
  | error cause => simp [hc, Except.mapError, bind, Except.bind] at h
  | ok bytes => exact ⟨bytes, rfl, (Except.ok.inj (by rw [hc] at h; exact h)).symm⟩

theorem reads_eq_ok {ps : List (List Name × Node)} {events : List Log.Event}
    {records : List Record}
    (h : ps.flatMapM (fun p => Logged.quiet (Task.perform fs root (.read p.1))) =
      ⟨events, .ok records⟩) :
    events = [] ∧ List.Forall₂ (ReadAs fs root) ps records := by
  induction ps generalizing events records with
  | nil =>
      cases h
      exact ⟨rfl, .nil⟩
  | cons p ps ih =>
      obtain ⟨before, own, after, others, hfirst, hothers, rfl, rfl⟩ := flatMapM_cons_eq_ok h
      obtain ⟨rfl, hperform⟩ := Logged.mk.inj hfirst
      obtain ⟨bytes, hbytes, rfl⟩ := perform_read_eq_ok hperform
      obtain ⟨rfl, hall⟩ := ih hothers
      exact ⟨rfl, .cons ⟨bytes, hbytes, rfl⟩ hall⟩

/-- The walk of a directory that ends well has listed it, read its files and walked its
entries. -/
theorem walk_directory_eq_ok {names : List Name} {mode : Mode} {entries : Entries}
    {events : List Log.Event} {records : List Record}
    (h : walk fs root names (.directory mode entries) = ⟨events, .ok records⟩) :
    ∃ own after below, (∃ yield, Task.perform fs root (.list names) = .ok yield) ∧
      List.Forall₂ (ReadAs fs root) (readable fs root (children names entries)) own ∧
      (children names entries).flatMapM (fun p => walk fs root p.1 p.2) = ⟨after, .ok below⟩ ∧
      events = (children names entries).filterMap (notice? fs root) ++ after ∧
      records = own ++ below := by
  rw [walk_directory] at h
  obtain ⟨_, yield, _, hlist, h₁, rfl⟩ := Logged.bind_eq_ok h
  obtain ⟨_, _, _, hnote, h₂, rfl⟩ := Logged.bind_eq_ok h₁
  obtain ⟨_, own, _, hown, h₃, rfl⟩ := Logged.bind_eq_ok h₂
  obtain ⟨after, below, _, hwalks, hpure, rfl⟩ := Logged.bind_eq_ok h₃
  obtain ⟨rfl, hperform⟩ := Logged.mk.inj hlist
  obtain ⟨rfl, -⟩ := Logged.mk.inj hnote
  obtain ⟨rfl, hreads⟩ := reads_eq_ok hown
  cases hpure
  refine ⟨own, after, below, ⟨yield, hperform⟩, hreads, hwalks, ?_, rfl⟩
  rw [List.append_nil, List.nil_append, List.nil_append]

theorem readable_append (a b : List (List Name × Node)) :
    readable fs root (a ++ b) = readable fs root a ++ readable fs root b :=
  List.filter_append ..

/-- What a walk that ends well leaves behind. -/
def Recorded (fs : FileSystem) (root : Path) (found : List (List Name × Node))
    (events : List Log.Event) (records : List Record) : Prop :=
  events = found.filterMap (notice? fs root) ∧
    List.Forall₂ (ReadAs fs root) (readable fs root found) records

theorem Recorded.append {found found' : List (List Name × Node)} {events events' : List Log.Event}
    {records records' : List Record} (h : Recorded fs root found events records)
    (h' : Recorded fs root found' events' records') :
    Recorded fs root (found ++ found') (events ++ events') (records ++ records') := by
  obtain ⟨rfl, hall⟩ := h
  obtain ⟨rfl, hall'⟩ := h'
  refine ⟨(List.filterMap_append ..).symm, ?_⟩
  rw [readable_append]
  exact List.rel_append hall hall'

theorem flatMapM_recorded {ps : List (List Name × Node)} {events : List Log.Event}
    {records : List Record}
    (hwalk : ∀ p ∈ ps, ∀ events records, walk fs root p.1 p.2 = ⟨events, .ok records⟩ →
      Recorded fs root (p.2.inventory p.1) events records)
    (h : ps.flatMapM (fun p => walk fs root p.1 p.2) = ⟨events, .ok records⟩) :
    Recorded fs root (ps.flatMap fun p => p.2.inventory p.1) events records := by
  induction ps generalizing events records with
  | nil =>
      cases h
      exact ⟨rfl, .nil⟩
  | cons p ps ih =>
      obtain ⟨hp, hps⟩ := List.forall_mem_cons.1 hwalk
      obtain ⟨before, own, after, others, hfirst, hothers, rfl, rfl⟩ := flatMapM_cons_eq_ok h
      rw [List.flatMap_cons]
      exact (hp _ _ hfirst).append (ih hps hothers)

theorem walk_eq_ok {names : List Name} {node : Node} {events : List Log.Event}
    {records : List Record} (h : walk fs root names node = ⟨events, .ok records⟩) :
    Recorded fs root (node.inventory names) events records := by
  induction node using Node.entriesInduction generalizing names events records with
  | other node hk =>
      rw [walk_of_kind_ne hk] at h
      cases h
      rw [Node.inventory_of_kind_ne hk]
      exact ⟨rfl, .nil⟩
  | directory mode entries ih =>
      obtain ⟨own, after, below, -, hreads, hwalks, rfl, rfl⟩ := walk_directory_eq_ok h
      rw [Node.inventory_directory]
      have hfirst : Recorded fs root (children names entries)
          ((children names entries).filterMap (notice? fs root)) own := ⟨rfl, hreads⟩
      refine hfirst.append (flatMapM_recorded (fun p hp events records hwalk => ?_) hwalks)
      obtain ⟨n, -, he⟩ := Node.mem_children.1 hp
      exact ih _ he hwalk

theorem paths_of_readAs {ps : List (List Name × Node)} {records : List Record}
    (h : List.Forall₂ (ReadAs fs root) ps records) :
    records.map (·.path) = (ps.map (·.1)).map Path.relative := by
  induction h with
  | nil => rfl
  | cons hr _ ih =>
      obtain ⟨bytes, -, rfl⟩ := hr
      rw [List.map_cons, List.map_cons, List.map_cons, ih]

/-- Records read at different places are of different places by their paths too. -/
theorem Recorded.distinct {found : List (List Name × Node)} {events : List Log.Event}
    {records : List Record} (h : Recorded fs root found events records)
    (hfound : (found.map (·.1)).Nodup) :
    records.Pairwise fun a b => ¬ a.path.Same b.path := by
  have hplaces : ((readable fs root found).map (·.1)).Nodup :=
    hfound.sublist (List.filter_sublist.map _)
  have hpaths : (records.map (·.path)).Pairwise fun p q => ¬ p.Same q := by
    rw [paths_of_readAs h.2]
    exact List.pairwise_map.2 (hplaces.imp fun hne hsame => hne (Path.relative_same_iff.1 hsame))
  exact List.pairwise_map.1 hpaths

theorem walk_root_distinct {events : List Log.Event} {records : List Record}
    (h : walk fs root [] (fs.tree root) = ⟨events, .ok records⟩) :
    records.Pairwise fun a b => ¬ a.path.Same b.path :=
  (walk_eq_ok h).distinct (Node.nodup_inventory (fs.tree_distinct root) [])

/-- A scan yields the records of the walk of its root, if the root passes the check. -/
theorem scan_records (fs : FileSystem) (root : Path) :
    Snapshot.records <$> (Snapshot.scan fs root).result =
      (do checkRoot fs root; (walk fs root [] (fs.tree root)).result) := by
  rw [scan_eq]
  simp only [Logged.result_bind, Logged.result_log, Logged.result_quiet]
  change Snapshot.records <$> (checkRoot fs root >>= _) = checkRoot fs root >>= _
  rcases checkRoot fs root with e | u
  · rfl
  · rcases hw : walk fs root [] (fs.tree root) with ⟨events, e | records⟩
    · rfl
    · exact congrArg Except.ok (Snapshot.ofList_records (walk_root_distinct hw))

/-- What is known of a scan that ends well. -/
theorem scan_eq_ok {s : Snapshot} (h : (Snapshot.scan fs root).result = .ok s) :
    fs.kind root = .ok .directory ∧
      ∃ events, walk fs root [] (fs.tree root) = ⟨events, .ok s.records⟩ ∧
        (Snapshot.scan fs root).events =
          ⟨.debug, target, "Scanning " ++ fs.describe root⟩ :: (events ++
            [⟨.info, target, "Scanned " ++ Numeral.decimal s.size ++ " files ("
              ++ Numeral.decimal s.totalBytes ++ " bytes) under " ++ fs.describe root⟩]) := by
  have hrec := scan_records fs root
  rw [h] at hrec
  have heq := scan_eq fs root
  obtain ⟨cause, -, hc⟩ | ⟨k, -, -, hc⟩ | ⟨hk, hc⟩ := checkRoot_eq fs root
  · rw [hc] at hrec
    cases hrec
  · rw [hc] at hrec
    cases hrec
  · rw [hc] at hrec heq
    rcases hw : walk fs root [] (fs.tree root) with ⟨events, e | records⟩
    · rw [hw] at hrec
      cases hrec
    · rw [hw] at hrec heq
      obtain rfl : s.records = records := Except.ok.inj hrec
      have hs : Snapshot.ofList s.records = s := Snapshot.ofList_records_self s
      refine ⟨hk, events, rfl, ?_⟩
      rw [heq]
      simp [Logged.log, Logged.quiet, hs]

end TreeCompare.Scan
