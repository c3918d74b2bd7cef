import Mathlib.Data.List.Basic
import Mathlib.Data.List.Induction
import Mathlib.Tactic.SplitIfs
import TreeCompare.Files.Resolve

/-!
# Paths below a directory

A path with a name joined to it has one component more and asks for one step
more, whatever the path looks like. The relative path through directories of
given names has exactly these names as its components, so two such paths are the
same place only if the names are equal, byte for byte.
-/
namespace TreeCompare.Path

theorem split_ne_nil (bytes : List UInt8) : split bytes ≠ [] := by
  cases bytes with
  | nil => simp [split]
  | cons b rest =>
      rw [split]
      split
      · simp
      · split <;> simp

theorem split_of_notMem {bytes : List UInt8} (h : slash ∉ bytes) : split bytes = [bytes] := by
  induction bytes with
  | nil => rfl
  | cons b rest ih =>
      obtain ⟨hb, hr⟩ := not_or.1 (mt List.mem_cons.2 h)
      rw [split, if_neg (Ne.symm hb), ih hr]

theorem split_append_slash (a b : List UInt8) :
    split (a ++ slash :: b) = split a ++ split b := by
  induction a with
  | nil => simp [split]
  | cons x a ih =>
      simp only [List.cons_append, split, ih]
      split
      · rfl
      · cases hs : split a with
        | nil => exact absurd hs (split_ne_nil a)
        | cons piece pieces => rfl

/-- The steps of a path without the demand that its last slash makes. -/
def inner (path : Path) : List Step :=
  (if path.isAbsolute then [.root] else []) ++ (split path.bytes).filterMap Step.ofPiece?

theorem steps_eq (path : Path) :
    path.steps = path.inner ++ (if path.endsWithSlash then [.directory] else []) := rfl

theorem not_valid_nil : ¬ ValidName [] := fun h => h.1 rfl

@[simp] theorem component?_nil : component? [] = none := by decide

@[simp] theorem component?_name (n : Name) : component? n.bytes = some (.name n) := by
  simp [component?, n.valid, n.valid.2.2.2]

@[simp] theorem ofPiece?_nil : Step.ofPiece? [] = none := by decide

@[simp] theorem ofPiece?_name (n : Name) : Step.ofPiece? n.bytes = some (.name n) := by
  simp [Step.ofPiece?, n.valid, n.valid.2.2.1, n.valid.2.2.2]

theorem ofName_bytes (n : Name) : (ofName n).bytes = n.bytes := rfl

theorem name_not_absolute (n : Name) : (ofName n).isAbsolute = false := by
  obtain ⟨bytes, valid⟩ := n
  cases bytes with
  | nil => exact absurd valid not_valid_nil
  | cons b rest =>
      have hb : b ≠ slash := fun e => valid.2.1 (by simp [e])
      simp [isAbsolute, ofName, hb]

theorem name_not_endsWithSlash (n : Name) : (ofName n).endsWithSlash = false := by
  rw [Bool.eq_false_iff]
  intro h
  have hl : n.bytes.getLast? = some slash := by simpa [endsWithSlash, ofName] using h
  exact n.valid.2.1 (List.mem_of_getLast? hl)

theorem endsWithSlash_iff (path : Path) :
    path.endsWithSlash = true ↔ ∃ front, path.bytes = front ++ [slash] := by
  simp [endsWithSlash, List.getLast?_eq_some_iff]

/-- What a path and a name after it are written as: in all three forms the last
slash stands before the name, and what stands before that slash is kept. -/
theorem join_name_cases (p : Path) (n : Name) :
    (p.bytes = [] ∧ (p.join (.ofName n)).bytes = n.bytes) ∨
    (∃ front, p.bytes = front ++ [slash] ∧ (p.join (.ofName n)).bytes = front ++ slash :: n.bytes) ∨
    (p.bytes ≠ [] ∧ (p.join (.ofName n)).bytes = p.bytes ++ slash :: n.bytes) := by
  simp only [join, name_not_absolute, Bool.false_eq_true, if_false, ofName_bytes]
  by_cases he : p.bytes = []
  · exact .inl ⟨he, by simp [he]⟩
  · by_cases hs : p.endsWithSlash = true
    · obtain ⟨front, hf⟩ := (endsWithSlash_iff p).1 hs
      exact .inr (.inl ⟨front, hf, by simp [hs, hf]⟩)
    · exact .inr (.inr ⟨he, by simp [hs, he]⟩)

theorem isAbsolute_join_name (p : Path) (n : Name) :
    (p.join (.ofName n)).isAbsolute = p.isAbsolute := by
  have hn := name_not_absolute n
  simp only [isAbsolute, ofName_bytes] at hn ⊢
  obtain ⟨he, hb⟩ | ⟨front, he, hb⟩ | ⟨he, hb⟩ := join_name_cases p n
  · simp [hb, he, hn]
  · cases front <;> simp [hb, he]
  · rw [hb, List.head?_append_of_ne_nil _ he]

theorem endsWithSlash_join_name (p : Path) (n : Name) :
    (p.join (.ofName n)).endsWithSlash = false := by
  have hn := name_not_endsWithSlash n
  have hne : n.bytes ≠ [] := n.valid.1
  simp only [endsWithSlash, ofName_bytes] at hn ⊢
  obtain ⟨_, hb⟩ | ⟨front, _, hb⟩ | ⟨_, hb⟩ := join_name_cases p n
  · rw [hb, hn]
  all_goals rw [hb, List.getLast?_append_of_ne_nil _ (by simp), List.getLast?_cons_of_ne_nil hne, hn]

/-- A reading of pieces that passes over empty ones sees one piece more. -/
theorem filterMap_split_join_name {α : Type} (f : List UInt8 → Option α) (hf : f [] = none)
    (p : Path) (n : Name) :
    (split (p.join (.ofName n)).bytes).filterMap f =
      (split p.bytes).filterMap f ++ (f n.bytes).toList := by
  have hn : split n.bytes = [n.bytes] := split_of_notMem n.valid.2.1
  have h1 : [n.bytes].filterMap f = (f n.bytes).toList := by cases h : f n.bytes <;> simp [h]
  obtain ⟨he, hb⟩ | ⟨front, he, hb⟩ | ⟨_, hb⟩ := join_name_cases p n
  · rw [hb, he, hn, h1]
    simp [split, hf]
  · rw [hb, he, split_append_slash, split_append_slash, hn, List.filterMap_append, h1]
    simp [split, hf]
  · rw [hb, split_append_slash, hn, List.filterMap_append, h1]

theorem head?_split_join_name (p : Path) (n : Name) (h : p.bytes ≠ []) :
    (split (p.join (.ofName n)).bytes).head? = (split p.bytes).head? := by
  obtain ⟨he, _⟩ | ⟨front, he, hb⟩ | ⟨_, hb⟩ := join_name_cases p n
  · exact absurd he h
  · rw [hb, he, split_append_slash, split_append_slash,
      List.head?_append_of_ne_nil _ (split_ne_nil front),
      List.head?_append_of_ne_nil _ (split_ne_nil front)]
  · rw [hb, split_append_slash, List.head?_append_of_ne_nil _ (split_ne_nil _)]

theorem components_join_name (p : Path) (n : Name) :
    (p.join (.ofName n)).components = p.components ++ [.name n] := by
  have hin := filterMap_split_join_name component? component?_nil p n
  rw [component?_name] at hin
  by_cases h : p.bytes = []
  · obtain ⟨_, hb⟩ | ⟨front, he, _⟩ | ⟨he, _⟩ := join_name_cases p n
    · have hhead : (split (p.join (.ofName n)).bytes).head? ≠ some dot := by
        rw [hb, split_of_notMem n.valid.2.1]
        simpa using n.valid.2.2.1
      have hp : p.components = [] := by rw [show p = ⟨[]⟩ from congrArg Path.mk h]; decide
      rw [components, isAbsolute_join_name, hin, hp, if_neg (by simp [isAbsolute, h]),
        if_neg hhead, h]
      simp [split]
    · simp [h] at he
    · exact absurd h he
  · rw [components, components, isAbsolute_join_name, head?_split_join_name p n h, hin]
    split_ifs <;> rfl

theorem inner_join_name (p : Path) (n : Name) :
    (p.join (.ofName n)).inner = p.inner ++ [.name n] := by
  rw [inner, inner, isAbsolute_join_name, filterMap_split_join_name _ ofPiece?_nil, ofPiece?_name,
    List.append_assoc]
  rfl

theorem steps_join_name (p : Path) (n : Name) :
    (p.join (.ofName n)).steps = p.inner ++ [.name n] := by
  rw [steps_eq, inner_join_name, endsWithSlash_join_name]
  simp

theorem join_not_absolute (base path : Path) (h : path.isAbsolute = false) :
    base.join path =
      if base.bytes.isEmpty || base.endsWithSlash then ⟨base.bytes ++ path.bytes⟩
      else ⟨base.bytes ++ slash :: path.bytes⟩ := by
  simp [join, h]

theorem join_ne_nil {base path : Path} (hb : base.bytes ≠ []) (h : path.isAbsolute = false) :
    (base.join path).bytes ≠ [] := by
  rw [join_not_absolute _ _ h]
  split <;> simp [hb]

/-- A name may be joined before or after a relative path is put below a root. -/
theorem join_join_name (root relative : Path) (n : Name) (h : relative.isAbsolute = false) :
    (root.join relative).join (.ofName n) = root.join (relative.join (.ofName n)) := by
  have hn := name_not_absolute n
  have hrel : (relative.join (.ofName n)).isAbsolute = false := by rw [isAbsolute_join_name, h]
  rw [join_not_absolute root relative h, join_not_absolute root _ hrel,
    join_not_absolute _ _ hn, join_not_absolute _ _ hn]
  by_cases he : relative.bytes = []
  · by_cases hr : root.bytes = []
    · simp [he, hr]
    · have hslash (front : List UInt8) : (Path.mk (front ++ [slash])).endsWithSlash = true := by
        simp [endsWithSlash]
      by_cases hs : root.endsWithSlash = true
      · simp [he, hs]
      · simp [he, hr, hs, hslash]
  · have hlast (front : List UInt8) :
        (Path.mk (front ++ relative.bytes)).endsWithSlash = relative.endsWithSlash := by
      simp only [endsWithSlash, List.getLast?_append_of_ne_nil _ he]
    have hlast' (front : List UInt8) :
        (Path.mk (front ++ slash :: relative.bytes)).endsWithSlash = relative.endsWithSlash := by
      simp only [endsWithSlash, List.getLast?_append_of_ne_nil front (List.cons_ne_nil _ _),
        List.getLast?_cons_of_ne_nil he]
    split_ifs <;> simp_all

/-- The path through directories of these names, from the one it is read in. -/
def relative (names : List Name) : Path := .ofComponents (names.map .name)

@[simp] theorem relative_nil : relative [] = .empty := rfl

theorem relative_concat (names : List Name) (n : Name) :
    relative (names ++ [n]) = (relative names).join (.ofName n) := by
  simp [relative, ofComponents, Component.path]

theorem relative_not_absolute (names : List Name) : (relative names).isAbsolute = false := by
  induction names using List.reverseRecOn with
  | nil => rfl
  | append_singleton names n ih => rw [relative_concat, isAbsolute_join_name, ih]

theorem components_relative (names : List Name) :
    (relative names).components = names.map .name := by
  induction names using List.reverseRecOn with
  | nil => decide
  | append_singleton names n ih =>
      rw [relative_concat, components_join_name, ih, List.map_append, List.map_singleton]

theorem relative_same_iff {a b : List Name} : (relative a).Same (relative b) ↔ a = b := by
  have hinj : Function.Injective Component.name := fun _ _ h => Component.name.inj h
  rw [Same, components_relative, components_relative, List.map_inj_right hinj]

theorem relative_injective : Function.Injective relative := fun _ _ h =>
  relative_same_iff.1 (congrArg components h)

/-- Joined below a root, a further name stands behind the joined path. -/
theorem join_relative_concat (root : Path) (names : List Name) (n : Name) :
    root.join (relative (names ++ [n])) = (root.join (relative names)).join (.ofName n) := by
  rw [relative_concat, join_join_name _ _ _ (relative_not_absolute names)]

/-- A root with nothing joined to it is written with a slash at its end. -/
theorem join_empty (root : Path) (h : root.bytes ≠ []) :
    (root.endsWithSlash = true ∧ root.join .empty = root) ∨
    (root.endsWithSlash = false ∧ (root.join .empty).bytes = root.bytes ++ [slash]) := by
  rw [join_not_absolute _ _ rfl]
  cases hs : root.endsWithSlash <;> simp [h, empty]

end TreeCompare.Path
