import Mathlib.Algebra.Ring.Nat
import Mathlib.Data.List.Nodup
import Mathlib.Data.List.Perm.Basic
import TreeCompare.Files.Tree

/-!
# What a directory holds

An object below a directory is found by the names on the way to it, and the way
leads through directories only: a link on it ends the search. The inventory of a
directory lists all these objects in the order in which a recursive walk comes to
them. In a tree without double names it lists each of them once.
-/
namespace TreeCompare

namespace Entries

/-- The entries of a directory in the order of their names' bytes. -/
def sorted (entries : Entries) : Entries :=
  entries.mergeSort fun a b => decide (a.1.bytes ≤ b.1.bytes)

@[simp] theorem mem_sorted {entries : Entries} {e : Name × Node} :
    e ∈ sorted entries ↔ e ∈ entries := List.mem_mergeSort

theorem nodup_names_sorted {entries : Entries} (h : entries.names.Nodup) :
    ((sorted entries).map (·.1)).Nodup :=
  (((List.mergeSort_perm _ _).map _).nodup_iff).2 h

theorem find?_eq_some_iff {entries : Entries} (h : entries.names.Nodup) {name : Name}
    {node : Node} : entries.find? name = some node ↔ (name, node) ∈ entries := by
  refine ⟨find?_mem, fun hm => ?_⟩
  induction entries with
  | nil => simp at hm
  | cons e rest ih =>
      obtain ⟨n, old⟩ := e
      simp only [names, List.map_cons, List.nodup_cons] at h
      simp only [find?, List.lookup_cons]
      rcases List.mem_cons.1 hm with heq | hm
      · obtain ⟨rfl, rfl⟩ := Prod.mk.inj heq
        simp
      · have hne : name ≠ n := fun e => h.1 (e ▸ List.mem_map_of_mem (f := Prod.fst) hm)
        rw [beq_false_of_ne hne]
        exact ih h.2 hm

theorem directories_eq_sum (entries : Entries) :
    directories entries = (entries.map (·.2.directories)).sum := by
  induction entries with
  | nil => rfl
  | cons e rest ih => simp [directories, ih]

theorem directories_sorted (entries : Entries) :
    directories (sorted entries) = directories entries := by
  rw [directories_eq_sum, directories_eq_sum]
  exact ((List.mergeSort_perm _ _).map _).sum_nat

theorem directories_le_of_mem {entries : Entries} {e : Name × Node} (h : e ∈ entries) :
    e.2.directories ≤ directories entries := by
  induction entries with
  | nil => simp at h
  | cons x rest ih =>
      rw [directories]
      rcases List.mem_cons.1 h with rfl | h
      · omega
      · have hle := ih h
        omega

end Entries

namespace Node

theorem sizeOf_lt_of_mem {mode : Mode} {entries : Entries} {e : Name × Node}
    (h : e ∈ entries) : sizeOf e.2 < sizeOf (directory mode entries) := by
  have he := List.sizeOf_lt_of_mem h
  have hpair : sizeOf e = 1 + sizeOf e.1 + sizeOf e.2 := by cases e; rfl
  simp only [directory.sizeOf_spec]
  omega

/-- The tree and all that its directories hold. -/
inductive Within (tree : Node) : Node → Prop
  | self : Within tree tree
  | entry {mode : Mode} {entries : Entries} {e : Name × Node} :
      Within tree (.directory mode entries) → e ∈ entries → Within tree e.2

theorem Within.distinct {tree node : Node} (h : Within tree node) (ht : tree.Distinct) :
    node.Distinct := by
  induction h with
  | self => exact ht
  | entry _ he ih => exact ih.of_mem he

theorem Within.directories_le {tree node : Node} (h : Within tree node) :
    node.directories ≤ tree.directories := by
  induction h with
  | self => exact Nat.le_refl _
  | entry _ he ih =>
      rw [directories] at ih
      have hle := Entries.directories_le_of_mem he
      omega

/-- The object that names lead to from a directory, through directories only. -/
def find? : Node → List Name → Option Node
  | node, [] => some node
  | .directory _ entries, name :: names => (Entries.find? entries name).bind (find? · names)
  | _, _ :: _ => none

theorem find?_append (node : Node) (a b : List Name) :
    node.find? (a ++ b) = (node.find? a).bind (find? · b) := by
  induction a generalizing node with
  | nil => simp [find?]
  | cons name a ih =>
      cases node with
      | directory mode entries =>
          simp only [List.cons_append, find?, Option.bind_assoc]
          exact Option.bind_congr fun child _ => ih child
      | _ => simp [find?]

theorem find?_cons {mode : Mode} {entries : Entries} (h : entries.names.Nodup) {name : Name}
    {names : List Name} {node : Node} :
    (directory mode entries).find? (name :: names) = some node ↔
      ∃ child, (name, child) ∈ entries ∧ child.find? names = some node := by
  simp only [find?, Option.bind_eq_some_iff, Entries.find?_eq_some_iff h]

theorem find?_singleton (mode : Mode) (entries : Entries) (name : Name) :
    (directory mode entries).find? [name] = Entries.find? entries name := by
  cases h : Entries.find? entries name <;> simp [find?, h]

theorem Distinct.of_find? {tree node : Node} (h : tree.Distinct) {names : List Name}
    (hf : tree.find? names = some node) : node.Distinct := by
  induction names generalizing tree with
  | nil => exact Option.some.inj hf ▸ h
  | cons name names ih =>
      cases tree with
      | directory mode entries =>
          obtain ⟨child, hc, hf⟩ := (find?_cons h.nodup).1 hf
          exact ih (h.of_mem hc) hf
      | _ => simp [find?] at hf

/-- Induction on a tree, a directory after all of its entries. -/
@[elab_as_elim]
theorem entriesInduction {motive : Node → Prop}
    (directory : ∀ mode entries, (∀ e ∈ entries, motive e.2) → motive (.directory mode entries))
    (other : ∀ node, node.kind ≠ .directory → motive node) (node : Node) : motive node :=
  match node with
  | .directory mode entries =>
      directory mode entries fun e _ => entriesInduction directory other e.2
  | .file _ _ | .link _ | .special _ _ => other _ nofun
termination_by sizeOf node
decreasing_by next he => exact sizeOf_lt_of_mem he

/-- The entries of a directory in order, with the names that lead to them. -/
def children (names : List Name) (entries : Entries) : List (List Name × Node) :=
  (Entries.sorted entries).map fun e => (names ++ [e.1], e.2)

theorem mem_children {names : List Name} {entries : Entries} {p : List Name × Node} :
    p ∈ children names entries ↔ ∃ n, p.1 = names ++ [n] ∧ (n, p.2) ∈ entries := by
  simp only [children, List.mem_map, Entries.mem_sorted]
  constructor
  · rintro ⟨e, he, rfl⟩
    exact ⟨e.1, rfl, he⟩
  · rintro ⟨n, hn, he⟩
    exact ⟨(n, p.2), he, Prod.ext hn.symm rfl⟩

theorem sizeOf_lt_of_mem_children {names : List Name} {mode : Mode} {entries : Entries}
    {p : List Name × Node} (h : p ∈ children names entries) :
    sizeOf p.2 < sizeOf (directory mode entries) := by
  obtain ⟨n, -, he⟩ := mem_children.1 h
  exact sizeOf_lt_of_mem he

theorem Distinct.of_mem_children {names : List Name} {mode : Mode} {entries : Entries}
    {p : List Name × Node} (h : (directory mode entries).Distinct)
    (hp : p ∈ children names entries) : p.2.Distinct := by
  obtain ⟨n, -, he⟩ := mem_children.1 hp
  exact h.of_mem he

theorem nodup_children (names : List Name) {entries : Entries} (h : entries.names.Nodup) :
    ((children names entries).map (·.1)).Nodup := by
  have hmap : (children names entries).map (·.1) =
      ((Entries.sorted entries).map (·.1)).map fun n => names ++ [n] := by
    simp [children]
  rw [hmap]
  exact (Entries.nodup_names_sorted h).map fun a b heq => by simpa using heq

theorem find?_children {tree : Node} (ht : tree.Distinct) {names : List Name} {mode : Mode}
    {entries : Entries} (hf : tree.find? names = some (.directory mode entries))
    {p : List Name × Node} (hp : p ∈ children names entries) : tree.find? p.1 = some p.2 := by
  obtain ⟨n, hn, he⟩ := mem_children.1 hp
  rw [hn, find?_append, hf, Option.bind_some, find?_singleton,
    Entries.find?_eq_some_iff (ht.of_find? hf).nodup]
  exact he

/-- How many directories the subdirectories hold, themselves included. -/
theorem sum_directories_children (names : List Name) (entries : Entries) :
    (((children names entries).filter fun p => p.2.kind = .directory).map
      fun p => p.2.directories).sum = Entries.directories entries := by
  have hfilter (ps : List (List Name × Node)) :
      ((ps.filter fun p => p.2.kind = .directory).map fun p => p.2.directories).sum =
        (ps.map fun p => p.2.directories).sum := by
    induction ps with
    | nil => rfl
    | cons p ps ih =>
        obtain ⟨place, node⟩ := p
        cases node <;> simpa [kind, directories] using ih
  rw [hfilter, children, List.map_map, ← Entries.directories_sorted, Entries.directories_eq_sum]
  rfl

/-- All objects below a directory with the names that lead to them: first its
entries in order, then in this order what the entries hold. -/
def inventory (names : List Name) : Node → List (List Name × Node)
  | .directory _ entries =>
      children names entries ++
        (children names entries).attach.flatMap fun ⟨p, _⟩ => inventory p.1 p.2
  | _ => []
termination_by node => sizeOf node
decreasing_by next h => exact sizeOf_lt_of_mem_children h

theorem inventory_directory (names : List Name) (mode : Mode) (entries : Entries) :
    (directory mode entries).inventory names =
      children names entries ++ (children names entries).flatMap fun p => inventory p.1 p.2 := by
  rw [inventory, List.flatMap_subtype (g := fun p => inventory p.1 p.2) (fun _ _ => rfl),
    List.unattach_attach]

theorem inventory_of_kind_ne {node : Node} (h : node.kind ≠ .directory) (names : List Name) :
    node.inventory names = [] := by
  cases node with
  | directory mode entries => exact absurd rfl h
  | _ => rw [inventory]; nofun

/-- An inventory holds what can be found below the directory, and nothing else. -/
theorem mem_inventory_iff {tree : Node} (ht : tree.Distinct) {names place : List Name}
    {node : Node} :
    (place, node) ∈ tree.inventory names ↔
      ∃ way, way ≠ [] ∧ place = names ++ way ∧ tree.find? way = some node := by
  induction tree using entriesInduction generalizing names with
  | other tree hk =>
      rw [inventory_of_kind_ne hk]
      refine ⟨nofun, ?_⟩
      rintro ⟨_ | ⟨name, way⟩, hne, -, hf⟩
      · exact absurd rfl hne
      · cases tree with
        | directory mode entries => exact absurd rfl hk
        | _ => simp [find?] at hf
  | directory mode entries ih =>
      simp only [inventory_directory, List.mem_append, List.mem_flatMap, mem_children]
      constructor
      · rintro (⟨n, rfl, hn⟩ | ⟨⟨_, child⟩, ⟨n, rfl, hn⟩, hm⟩)
        · exact ⟨[n], by simp, rfl, (find?_cons ht.nodup).2 ⟨node, hn, rfl⟩⟩
        · obtain ⟨way, -, rfl, hf⟩ := (ih _ hn (ht.of_mem hn)).1 hm
          exact ⟨n :: way, by simp, by simp, (find?_cons ht.nodup).2 ⟨child, hn, hf⟩⟩
      · rintro ⟨_ | ⟨n, way⟩, hne, rfl, hf⟩
        · exact absurd rfl hne
        · obtain ⟨child, hc, hf⟩ := (find?_cons ht.nodup).1 hf
          by_cases hw : way = []
          · subst hw
            obtain rfl : child = node := by simpa [find?] using hf
            exact .inl ⟨n, rfl, hc⟩
          · exact .inr ⟨(names ++ [n], child), ⟨n, rfl, hc⟩,
              (ih _ hc (ht.of_mem hc)).2 ⟨way, hw, by simp, hf⟩⟩

theorem place_of_mem_inventory {tree : Node} (ht : tree.Distinct) {names place : List Name}
    (h : place ∈ (tree.inventory names).map (·.1)) : ∃ way, way ≠ [] ∧ place = names ++ way := by
  obtain ⟨⟨_, node⟩, hm, rfl⟩ := List.mem_map.1 h
  obtain ⟨way, hne, hplace, -⟩ := (mem_inventory_iff ht).1 hm
  exact ⟨way, hne, hplace⟩

/-- An inventory lists no place twice. -/
theorem nodup_inventory {tree : Node} (ht : tree.Distinct) (names : List Name) :
    ((tree.inventory names).map (·.1)).Nodup := by
  induction tree using entriesInduction generalizing names with
  | other tree hk => simp [inventory_of_kind_ne hk]
  | directory mode entries ih =>
      have hs := nodup_children names ht.nodup
      rw [inventory_directory, List.map_append, List.map_flatMap]
      refine List.nodup_append.2 ⟨hs, List.nodup_flatMap.2 ⟨fun p hp => ?_, ?_⟩, ?_⟩
      · obtain ⟨n, -, he⟩ := mem_children.1 hp
        exact ih _ he (ht.of_mem he) _
      · -- below two entries the ways part at the names of the entries
        refine (List.pairwise_map.1 hs).imp_of_mem fun {a b} ha hb hab => ?_
        refine List.disjoint_left.2 fun place hpa hpb => ?_
        obtain ⟨n, hn, -⟩ := mem_children.1 ha
        obtain ⟨n', hn', -⟩ := mem_children.1 hb
        obtain ⟨way, -, rfl⟩ := place_of_mem_inventory (ht.of_mem_children ha) hpa
        obtain ⟨way', -, heq⟩ := place_of_mem_inventory (ht.of_mem_children hb) hpb
        rw [hn, hn'] at heq
        simp only [List.append_assoc, List.append_cancel_left_eq, List.singleton_append,
          List.cons.injEq] at heq
        exact hab (by rw [hn, hn', heq.1])
      · -- an entry has one name behind those of the directory, what it holds has more
        intro place hp place' hp' heq
        obtain ⟨p, hpc, rfl⟩ := List.mem_map.1 hp
        obtain ⟨p', hpc', hm⟩ := List.mem_flatMap.1 hp'
        obtain ⟨n, hn, -⟩ := mem_children.1 hpc
        obtain ⟨n', hn', -⟩ := mem_children.1 hpc'
        obtain ⟨way, hne, rfl⟩ := place_of_mem_inventory (ht.of_mem_children hpc') hm
        have hlen := congrArg List.length heq
        have hpos := List.length_pos_iff.2 hne
        simp only [hn, hn', List.length_append, List.length_singleton] at hlen
        omega

end Node

end TreeCompare
