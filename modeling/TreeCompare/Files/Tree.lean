import TreeCompare.Path.Basic

/-!
# File trees

A file tree holds regular files, directories, symbolic links and special files.
A directory keeps its entries in the order in which it lists them, and no name
occurs twice in it. Permissions are not told apart by owner, group and others.
-/
namespace TreeCompare

/-- What an object lets an ordinary user do; to execute a directory is to search it. -/
structure Mode where
  read : Bool
  write : Bool
  execute : Bool
deriving DecidableEq, Repr

def Mode.all : Mode := ⟨true, true, true⟩

/-- The mode of a file that has just been created. -/
def Mode.plain : Mode := ⟨true, true, false⟩

/-- Objects that are neither files nor directories nor links. -/
inductive Special
  | pipe
  | socket
  | nullDevice
deriving DecidableEq, Repr

/-- An object of a file tree. -/
inductive Node
  | file (mode : Mode) (content : List UInt8)
  | directory (mode : Mode) (entries : List (Name × Node))
  | link (target : Path)
  | special (mode : Mode) (kind : Special)

abbrev Entries := List (Name × Node)

/-- The sort of an object, as a directory listing tells it. -/
inductive Kind
  | file
  | directory
  | link
  | special
deriving DecidableEq, Repr

def Node.kind : Node → Kind
  | .file _ _ => .file
  | .directory _ _ => .directory
  | .link _ => .link
  | .special _ _ => .special

namespace Entries

def names (entries : Entries) : List Name := entries.map (·.1)

def find? (entries : Entries) (name : Name) : Option Node := entries.lookup name

/-- Replaces the object with a name, or adds it as the last entry. -/
def put (name : Name) (node : Node) : Entries → Entries
  | [] => [(name, node)]
  | (n, old) :: rest => if n = name then (n, node) :: rest else (n, old) :: put name node rest

def erase (name : Name) (entries : Entries) : Entries := entries.filter (·.1 ≠ name)

end Entries

mutual

/-- No directory of the tree has two entries of one name. -/
def Node.Distinct : Node → Prop
  | .directory _ entries => (entries.map (·.1)).Nodup ∧ Entries.AllDistinct entries
  | _ => True

def Entries.AllDistinct : List (Name × Node) → Prop
  | [] => True
  | (_, node) :: rest => node.Distinct ∧ Entries.AllDistinct rest

end

mutual

/-- How many directories a tree holds, itself included. -/
def Node.directories : Node → Nat
  | .directory _ entries => Entries.directories entries + 1
  | _ => 0

def Entries.directories : List (Name × Node) → Nat
  | [] => 0
  | (_, node) :: rest => node.directories + Entries.directories rest

end

namespace Entries

theorem allDistinct_iff (entries : Entries) :
    AllDistinct entries ↔ ∀ e ∈ entries, e.2.Distinct := by
  induction entries with
  | nil => simp [AllDistinct]
  | cons e rest ih => simp [AllDistinct, ih]

theorem names_put (name : Name) (node : Node) (entries : Entries) :
    (entries.put name node).names =
      if name ∈ entries.names then entries.names else entries.names ++ [name] := by
  induction entries with
  | nil => simp [put, names]
  | cons e rest ih =>
      obtain ⟨n, old⟩ := e
      by_cases h : n = name
      · simp [put, names, h]
      · have h' : ¬name = n := fun e => h e.symm
        simp only [names] at ih
        by_cases hm : name ∈ List.map (·.1) rest <;> simp [put, names, h, h', ih, hm]

theorem mem_put {name : Name} {node : Node} {entries : Entries} {e : Name × Node}
    (h : e ∈ entries.put name node) : e ∈ entries ∨ e.2 = node := by
  induction entries with
  | nil =>
      simp only [put, List.mem_singleton] at h
      exact .inr (by rw [h])
  | cons x rest ih =>
      obtain ⟨n, old⟩ := x
      simp only [put] at h
      split at h
      · rcases List.mem_cons.1 h with rfl | h
        · exact .inr rfl
        · exact .inl (List.mem_cons_of_mem _ h)
      · rcases List.mem_cons.1 h with rfl | h
        · exact .inl List.mem_cons_self
        · exact (ih h).imp_left (List.mem_cons_of_mem _)

theorem nodup_names_put {name : Name} {node : Node} {entries : Entries}
    (h : entries.names.Nodup) : (entries.put name node).names.Nodup := by
  rw [names_put]
  split
  next => exact h
  next hn => exact List.nodup_append.2 ⟨h, by simp, by
      intro a ha b hb e
      exact hn (by rwa [e, List.mem_singleton.1 hb] at ha)⟩

theorem find?_mem {entries : Entries} {name : Name} {node : Node}
    (h : entries.find? name = some node) : (name, node) ∈ entries := by
  induction entries with
  | nil => simp [find?] at h
  | cons e rest ih =>
      obtain ⟨n, old⟩ := e
      simp only [find?, List.lookup_cons] at h
      split at h
      next heq =>
        have : name = n := by simpa using heq
        simp only [Option.some.injEq] at h
        rw [this, h]
        exact List.mem_cons_self
      next => exact List.mem_cons_of_mem _ (ih h)

end Entries

namespace Node

/-- Puts an object at the place that the names lead to. Missing directories are
made on the way; nothing changes if the way leads through another object. -/
def put (new : Node) : List Name → Node → Node
  | [], _ => new
  | name :: names, .directory mode entries =>
      .directory mode (Entries.put name
        (put new names ((Entries.find? entries name).getD (.directory .all []))) entries)
  | _ :: _, other => other

/-- Takes away the object at the place that the names lead to. -/
def erase : List Name → Node → Node
  | [], node => node
  | [name], .directory mode entries => .directory mode (Entries.erase name entries)
  | name :: names, .directory mode entries =>
      match Entries.find? entries name with
      | none => .directory mode entries
      | some child => .directory mode (Entries.put name (erase names child) entries)
  | _ :: _, other => other

/-- Gives an object another mode; links have none. -/
def setMode (mode : Mode) : Node → Node
  | .file _ content => .file mode content
  | .directory _ entries => .directory mode entries
  | .special _ kind => .special mode kind
  | .link target => .link target

/-- Gives the object at the place that the names lead to another mode. -/
def restrict (mode : Mode) : List Name → Node → Node
  | [], node => node.setMode mode
  | name :: names, .directory own entries =>
      match Entries.find? entries name with
      | none => .directory own entries
      | some child => .directory own (Entries.put name (restrict mode names child) entries)
  | _ :: _, other => other

theorem Distinct.nodup {mode : Mode} {entries : Entries}
    (h : (Node.directory mode entries).Distinct) : entries.names.Nodup :=
  And.left h

theorem Distinct.of_mem {mode : Mode} {entries : Entries} {e : Name × Node}
    (h : (Node.directory mode entries).Distinct) (he : e ∈ entries) : e.2.Distinct :=
  (Entries.allDistinct_iff entries).1 (And.right h) e he

theorem distinct_directory_put {mode : Mode} {entries : Entries} {name : Name} {node : Node}
    (h : (Node.directory mode entries).Distinct) (hn : node.Distinct) :
    (Node.directory mode (entries.put name node)).Distinct := by
  refine ⟨Entries.nodup_names_put h.nodup, (Entries.allDistinct_iff _).2 fun e he => ?_⟩
  rcases Entries.mem_put he with he | rfl
  · exact h.of_mem he
  · exact hn

theorem Distinct.put {new : Node} (hn : new.Distinct) (names : List Name) {tree : Node}
    (h : tree.Distinct) : (new.put names tree).Distinct := by
  induction names generalizing tree with
  | nil => exact hn
  | cons name names ih =>
      cases tree with
      | directory mode entries =>
          refine distinct_directory_put h (ih ?_)
          cases hf : Entries.find? entries name with
          | none => exact ⟨List.nodup_nil, trivial⟩
          | some child => exact h.of_mem (Entries.find?_mem hf)
      | _ => exact h

theorem Distinct.restrict (mode : Mode) (names : List Name) {tree : Node}
    (h : tree.Distinct) : (Node.restrict mode names tree).Distinct := by
  induction names generalizing tree with
  | nil => cases tree <;> exact h
  | cons name names ih =>
      cases tree with
      | directory own entries =>
          simp only [Node.restrict]
          split
          next => exact h
          next child hf => exact distinct_directory_put h (ih (h.of_mem (Entries.find?_mem hf)))
      | _ => exact h

theorem Distinct.erase (names : List Name) {tree : Node} (h : tree.Distinct) :
    (Node.erase names tree).Distinct := by
  induction names generalizing tree with
  | nil => exact h
  | cons name names ih =>
      cases tree with
      | directory mode entries =>
          cases names with
          | nil =>
              refine ⟨List.Nodup.sublist (List.filter_sublist.map _) h.nodup,
                (Entries.allDistinct_iff _).2 fun e he => h.of_mem (List.mem_filter.1 he).1⟩
          | cons second names =>
              simp only [Node.erase]
              split
              next => exact h
              next child hf => exact distinct_directory_put h (ih (h.of_mem (Entries.find?_mem hf)))
      | _ => cases names <;> exact h

end Node

end TreeCompare
