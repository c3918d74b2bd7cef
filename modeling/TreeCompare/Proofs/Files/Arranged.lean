import TreeCompare.Files.Resolve
import TreeCompare.Proofs.Files.Subtree

/-!
# Trees in another order

A directory keeps its entries in some order, which is nothing but the order in which it
lists them. Trees that differ only in such orders have one arrangement: the tree with the
entries of every directory sorted by name. As no directory has a name twice, sorting
leaves no choice, and an entry is found by its name as before.
-/
namespace TreeCompare

namespace Name

theorem eq_of_bytes_eq {m n : Name} (h : m.bytes = n.bytes) : m = n := by
  cases m
  cases n
  cases h
  rfl

variable {α : Type}

theorem pairwise_mergeSort (named : List (Name × α)) :
    (named.mergeSort fun a b => decide (a.1.bytes ≤ b.1.bytes)).Pairwise
      fun a b => a.1.bytes ≤ b.1.bytes := by
  have hsorted : (named.mergeSort fun a b => decide (a.1.bytes ≤ b.1.bytes)).Pairwise
      fun a b => decide (a.1.bytes ≤ b.1.bytes) = true := by
    apply List.pairwise_mergeSort
    · intro a b c hab hbc
      exact decide_eq_true (List.le_trans (of_decide_eq_true hab) (of_decide_eq_true hbc))
    · intro a b
      simpa using List.le_total a.1.bytes b.1.bytes
  exact hsorted.imp of_decide_eq_true

/-- Sorting by names does not see an order, if no name occurs twice. -/
theorem mergeSort_eq_of_perm {named named' : List (Name × α)} (hp : named.Perm named')
    (h : (named.map (·.1)).Nodup) :
    (named.mergeSort fun a b => decide (a.1.bytes ≤ b.1.bytes)) =
      named'.mergeSort fun a b => decide (a.1.bytes ≤ b.1.bytes) := by
  refine List.Perm.eq_of_pairwise ?_ (pairwise_mergeSort named) (pairwise_mergeSort named') ?_
  · intro a b ha hb hab hba
    have hname := eq_of_bytes_eq (List.le_antisymm hab hba)
    have hb' := hp.mem_iff.2 (List.mem_mergeSort.1 hb)
    exact List.inj_on_of_nodup_map h (List.mem_mergeSort.1 ha) hb' hname
  · exact (List.mergeSort_perm _ _).trans (hp.trans (List.mergeSort_perm _ _).symm)

end Name

/-- Without double names the sorted names go up at every step. -/
theorem Entries.pairwise_sorted {entries : Entries} (h : entries.names.Nodup) :
    (sorted entries).Pairwise fun a b => a.1.bytes < b.1.bytes := by
  have hne : (sorted entries).Pairwise fun a b => a.1 ≠ b.1 :=
    List.pairwise_map.1 (nodup_names_sorted h)
  refine (Name.pairwise_mergeSort entries).imp₂ (fun a b hle hne => ?_) hne
  exact Std.lt_of_le_of_ne hle (mt Name.eq_of_bytes_eq hne)

namespace Node

/-- The tree with the entries of every directory in the order of their names' bytes. -/
def arranged : Node → Node
  | .directory mode entries =>
      .directory mode (Entries.sorted (entries.attach.map fun ⟨e, _⟩ => (e.1, arranged e.2)))
  | node => node
termination_by node => sizeOf node
decreasing_by next h => exact sizeOf_lt_of_mem h

end Node

def Entries.arranged (entries : Entries) : Entries :=
  sorted (entries.map fun e => (e.1, e.2.arranged))

namespace Node

theorem arranged_directory (mode : Mode) (entries : Entries) :
    (directory mode entries).arranged = directory mode (Entries.arranged entries) := by
  rw [arranged, List.map_subtype (g := fun e => (e.1, e.2.arranged)) (fun _ _ => rfl),
    List.unattach_attach, Entries.arranged]

theorem arranged_file (mode : Mode) (content : List UInt8) :
    (file mode content).arranged = file mode content := by
  rw [arranged]
  nofun

theorem arranged_link (target : Path) : (link target).arranged = link target := by
  rw [arranged]
  nofun

theorem arranged_special (mode : Mode) (kind : Special) :
    (special mode kind).arranged = special mode kind := by
  rw [arranged]
  nofun

theorem arranged_of_kind_ne {node : Node} (h : node.kind ≠ .directory) :
    node.arranged = node := by
  cases node with
  | directory mode entries => exact absurd rfl h
  | file mode content => exact arranged_file mode content
  | link target => exact arranged_link target
  | special mode kind => exact arranged_special mode kind

@[simp] theorem kind_arranged (node : Node) : node.arranged.kind = node.kind := by
  cases node with
  | directory mode entries => rw [arranged_directory]; rfl
  | _ => exact congrArg kind (arranged_of_kind_ne nofun)

end Node

namespace Entries

/-- An arranged directory lists the same names with the same kinds. -/
theorem kinds_arranged_perm (entries : Entries) :
    (entries.map fun e => (e.1, e.2.kind)).Perm
      ((arranged entries).map fun e => (e.1, e.2.kind)) := by
  have hkinds : entries.map (fun e => (e.1, e.2.kind)) =
      (entries.map fun e => (e.1, e.2.arranged)).map fun e => (e.1, e.2.kind) := by
    rw [List.map_map]
    exact List.map_congr_left fun e _ => congrArg (Prod.mk e.1) e.2.kind_arranged.symm
  rw [hkinds]
  exact ((List.mergeSort_perm _ _).map _).symm

theorem nodup_names_arranged {entries : Entries} (h : entries.names.Nodup) :
    (arranged entries).names.Nodup := by
  have hnames := (kinds_arranged_perm entries).map Prod.fst
  rw [List.map_map, List.map_map] at hnames
  exact hnames.nodup_iff.1 h

theorem mem_arranged {entries : Entries} {e : Name × Node} :
    e ∈ arranged entries ↔ ∃ node, (e.1, node) ∈ entries ∧ node.arranged = e.2 := by
  rw [arranged, mem_sorted, List.mem_map]
  constructor
  · rintro ⟨old, hold, rfl⟩
    exact ⟨old.2, hold, rfl⟩
  · rintro ⟨node, hnode, he⟩
    exact ⟨(e.1, node), hnode, Prod.ext rfl he⟩

/-- An entry is found by its name whatever the order. -/
theorem find?_arranged {entries : Entries} (h : entries.names.Nodup) (name : Name) :
    find? (arranged entries) name = (find? entries name).map Node.arranged := by
  refine Option.ext fun node => ?_
  rw [Option.map_eq_some_iff, find?_eq_some_iff (nodup_names_arranged h), mem_arranged]
  simp only [find?_eq_some_iff h]

theorem directories_arranged {entries : Entries}
    (h : ∀ e ∈ entries, e.2.arranged.directories = e.2.directories) :
    directories (arranged entries) = directories entries := by
  rw [arranged, directories_sorted, directories_eq_sum, directories_eq_sum, List.map_map]
  exact congrArg List.sum (List.map_congr_left h)

end Entries

namespace Node

theorem directories_arranged (node : Node) : node.arranged.directories = node.directories := by
  induction node using entriesInduction with
  | other node hk => rw [arranged_of_kind_ne hk]
  | directory mode entries ih =>
      rw [arranged_directory, directories, directories, Entries.directories_arranged ih]

theorem Distinct.arranged {node : Node} (h : node.Distinct) : node.arranged.Distinct := by
  induction node using entriesInduction with
  | other node hk => rwa [arranged_of_kind_ne hk]
  | directory mode entries ih =>
      rw [arranged_directory]
      refine ⟨Entries.nodup_names_arranged h.nodup, (Entries.allDistinct_iff _).2 fun e he => ?_⟩
      obtain ⟨node, hnode, heq⟩ := Entries.mem_arranged.1 he
      rw [← heq]
      exact ih _ hnode (h.of_mem hnode)

/-- Trees that differ in nothing but the order in which directories list their entries. -/
inductive Reordered : Node → Node → Prop
  | refl (node : Node) : Reordered node node
  | order {mode : Mode} {entries entries' : Entries} : entries.Perm entries' →
      Reordered (.directory mode entries) (.directory mode entries')
  | entry {mode : Mode} {front back : Entries} {name : Name} {old new : Node} :
      Reordered old new → Reordered (.directory mode (front ++ (name, old) :: back))
        (.directory mode (front ++ (name, new) :: back))
  | trans {a b c : Node} : Reordered a b → Reordered b c → Reordered a c

/-- Trees in different orders have one arrangement. -/
theorem Reordered.arranged_eq {a b : Node} (h : Reordered a b) (ha : a.Distinct) :
    b.Distinct ∧ a.arranged = b.arranged := by
  induction h with
  | refl => exact ⟨ha, rfl⟩
  | @order mode entries entries' hp =>
      constructor
      · refine ⟨((hp.map _).nodup_iff).1 ha.nodup, (Entries.allDistinct_iff _).2 fun e he => ?_⟩
        exact ha.of_mem (hp.mem_iff.2 he)
      · have hnames : (Entries.names (entries.map fun e => (e.1, e.2.arranged))).Nodup := by
          rw [Entries.names, List.map_map]
          exact ha.nodup
        rw [arranged_directory, arranged_directory, Entries.arranged, Entries.arranged,
          Entries.sorted, Entries.sorted, Name.mergeSort_eq_of_perm (hp.map _) hnames]
  | @entry mode front back name old new _ ih =>
      have hold := ha.of_mem (List.mem_append_right front List.mem_cons_self)
      obtain ⟨hnew, heq⟩ := ih hold
      constructor
      · constructor
        · have hnames := ha.nodup
          rw [Entries.names, List.map_append, List.map_cons] at hnames
          rw [List.map_append, List.map_cons]
          exact hnames
        · refine (Entries.allDistinct_iff _).2 fun e he => ?_
          rcases List.mem_append.1 he with he | he
          · exact ha.of_mem (List.mem_append_left _ he)
          · rcases List.mem_cons.1 he with rfl | he
            · exact hnew
            · exact ha.of_mem (List.mem_append_right _ (List.mem_cons_of_mem _ he))
      · rw [arranged_directory, arranged_directory, Entries.arranged, Entries.arranged,
          List.map_append, List.map_append, List.map_cons, List.map_cons, heq]
  | trans _ _ ihab ihbc =>
      obtain ⟨hb, hab⟩ := ihab ha
      obtain ⟨hc, hbc⟩ := ihbc hb
      exact ⟨hc, hab.trans hbc⟩

end Node

namespace FileSystem

/-- The file system with its tree arranged. -/
def arranged (fs : FileSystem) : FileSystem where
  top := fs.top.arranged
  workingDirectory := fs.workingDirectory
  privileged := fs.privileged
  distinct := fs.distinct.arranged

/-- File systems that differ in nothing but the order in which directories list their
entries. -/
structure Reordered (fs fs' : FileSystem) : Prop where
  top : fs.top.Reordered fs'.top
  workingDirectory : fs'.workingDirectory = fs.workingDirectory
  privileged : fs'.privileged = fs.privileged

theorem Reordered.arranged_eq {fs fs' : FileSystem} (h : Reordered fs fs') :
    fs'.arranged = fs.arranged := by
  obtain ⟨-, htop⟩ := h.top.arranged_eq fs.distinct
  rw [arranged, arranged, mk.injEq]
  exact ⟨htop.symm, h.workingDirectory, h.privileged⟩

end FileSystem

end TreeCompare
