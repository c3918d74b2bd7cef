import TreeCompare.Files.Access
import TreeCompare.Proofs.Files.Subtree
import TreeCompare.Proofs.Path.Relative

/-!
# Following a path and one name more

Steps can be taken in two parts: what is reached by the first part is where the
second part starts, with the links that are left. So a path with a name joined to
it leads to an object only if the path alone leads to a directory that has an
entry of this name. Permissions, limits and links on the way never change which
object is found, only whether one is.
-/
namespace TreeCompare.FileSystem

variable {fs : FileSystem}

/-- Takes further steps after a walk. -/
def resume (fs : FileSystem) : Walk → List Step → Walk
  | .reached trail, more => fs.walk .object trail more
  | .link trail target rest, more => .link trail target (rest ++ more)
  | .absent trail missing rest, more => .absent trail missing (rest ++ more)
  | .failed error, _ => .failed error

theorem walk_cons (trail : Trail) (step : Step) (rest : List Step) :
    fs.walk .object trail (step :: rest) = fs.resume (fs.walk .object trail [step]) rest := by
  cases step with
  | root => simp only [walk, resume]
  | directory => simp only [walk]; cases fs.here trail <;> rfl
  | current | parent =>
      simp only [walk]
      cases fs.here trail with
      | directory mode entries => dsimp only; split_ifs <;> rfl
      | _ => rfl
  | name n =>
      have hentry : (Purpose.object == Purpose.entry) = false := rfl
      simp only [walk, reduceCtorEq, false_and, if_false, hentry, Bool.and_false,
        Bool.false_eq_true]
      cases fs.here trail with
      | directory mode entries =>
          dsimp only
          split_ifs
          · rfl
          · rfl
          · cases Entries.find? entries n with
            | none => rfl
            | some node => cases node <;> rfl
      | _ => rfl

theorem walk_append (trail : Trail) (a b : List Step) :
    fs.walk .object trail (a ++ b) = fs.resume (fs.walk .object trail a) b := by
  induction a generalizing trail with
  | nil => simp only [List.nil_append, walk, resume]
  | cons step a ih =>
      rw [List.cons_append, walk_cons, walk_cons trail step a]
      cases fs.walk .object trail [step] with
      | reached t => exact ih t
      | _ => simp only [resume, List.append_assoc]

theorem chase_eq {purpose : Purpose} (links : Nat) (trail : Trail) (steps : List Step) :
    fs.chase purpose links trail steps =
      match fs.walk purpose trail steps, links with
      | .link _ _ _, 0 => .failed .tooManyLinks
      | .link trail target rest, links + 1 =>
          if target.bytes.isEmpty then .failed .notFound
          else fs.chase purpose links trail (target.steps ++ rest)
      | walk, _ => walk :=
  chase.eq_def fs purpose links trail steps

/-- Steps after an object that was reached are taken from there, with some of the
links that were allowed. -/
theorem chase_append {links : Nat} {trail t : Trail} {a : List Step}
    (h : fs.chase .object links trail a = .reached t) :
    ∃ left, ∀ b, fs.chase .object links trail (a ++ b) = fs.chase .object left t b := by
  induction links generalizing trail a with
  | zero =>
      rw [chase_eq] at h
      refine ⟨0, fun b => ?_⟩
      rw [chase_eq, chase_eq, walk_append]
      cases hw : fs.walk .object trail a <;> simp_all [resume]
  | succ links ih =>
      rw [chase_eq] at h
      cases hw : fs.walk .object trail a with
      | reached t' =>
          refine ⟨links + 1, fun b => ?_⟩
          simp only [hw, Walk.reached.injEq] at h
          rw [chase_eq, chase_eq _ t, walk_append, hw, h, resume]
      | link t' target rest =>
          simp only [hw] at h
          split at h
          · simp at h
          · next hne =>
              obtain ⟨left, hleft⟩ := ih h
              refine ⟨left, fun b => ?_⟩
              rw [chase_eq, walk_append, hw]
              simp only [resume]
              rw [if_neg hne, ← List.append_assoc, hleft]
      | absent t' missing rest => simp [hw] at h
      | failed error => simp [hw] at h

/-- What is on the way to an object is reached too. -/
theorem chase_of_append {links : Nat} {trail t : Trail} {a b : List Step}
    (h : fs.chase .object links trail (a ++ b) = .reached t) :
    ∃ t', fs.chase .object links trail a = .reached t' := by
  induction links generalizing trail a with
  | zero =>
      rw [chase_eq, walk_append] at h
      rw [chase_eq]
      cases hw : fs.walk .object trail a <;> simp_all [resume]
  | succ links ih =>
      rw [chase_eq, walk_append] at h
      rw [chase_eq]
      cases hw : fs.walk .object trail a with
      | reached t' => exact ⟨t', rfl⟩
      | link t' target rest =>
          simp only [hw, resume] at h ⊢
          split at h
          · simp at h
          · next hne =>
              rw [if_neg hne]
              exact ih (by rwa [List.append_assoc])
      | absent t' missing rest => simp [hw, resume] at h
      | failed error => simp [hw, resume] at h

theorem chase_directory_iff {links : Nat} {trail t : Trail} :
    fs.chase .object links trail [.directory] = .reached t ↔
      (fs.here trail).kind = .directory ∧ t = trail := by
  rw [chase_eq]
  simp only [walk]
  cases fs.here trail <;> simp [Node.kind, eq_comm]

/-- An object reached by a name is the entry of that name, unless that is a link. -/
theorem chase_name {links : Nat} {trail t : Trail} {n : Name}
    (h : fs.chase .object links trail [.name n] = .reached t) :
    ∃ mode entries child, fs.here trail = .directory mode entries ∧
      Entries.find? entries n = some child ∧ (child.kind ≠ .link → fs.here t = child) := by
  have hentry : (Purpose.object == Purpose.entry) = false := rfl
  rw [chase_eq] at h
  simp only [walk, reduceCtorEq, false_and, if_false, hentry, Bool.and_false,
    Bool.false_eq_true] at h
  cases hd : fs.here trail with
  | directory mode entries =>
      simp only [hd] at h
      by_cases hs : (!fs.maySearch .object mode (.name n)) = true
      · simp [hs] at h
      · by_cases hl : tooLong .object trail n = true
        · simp [hs, hl] at h
        · simp only [hs, hl] at h
          cases hf : Entries.find? entries n with
          | none => simp [hf] at h
          | some child =>
              refine ⟨mode, entries, child, rfl, hf, fun hk => ?_⟩
              cases child with
              | link target => exact absurd rfl hk
              | _ =>
                  simp only [hf, Bool.false_eq_true, if_false] at h
                  rw [← Walk.reached.inj h]
                  rfl
  | _ => simp [hd] at h

/-- Steps that look for a name in a deleted directory lead to no object. -/
theorem walk_of_strays {gone : List (Name × Mode)} {steps : List Step}
    (h : fs.strays .object gone steps = true) (trail : Trail) :
    (∃ t n rest, fs.walk .object (gone.map vacant ++ trail) steps = .absent t n rest) ∨
      ∃ e, fs.walk .object (gone.map vacant ++ trail) steps = .failed e := by
  induction steps generalizing gone with
  | nil => cases gone <;> simp [strays] at h
  | cons step rest ih =>
      cases gone with
      | nil => simp [strays] at h
      | cons d above =>
          have hhere : fs.here ((d :: above).map vacant ++ trail) = .directory d.2 [] := rfl
          cases step with
          | root => simp [strays] at h
          | directory =>
              simp only [strays, if_true] at h
              simp only [walk, hhere]
              exact ih h
          | current | parent =>
              simp only [strays, reduceCtorEq, if_false, Bool.and_eq_true] at h
              simp only [walk, hhere, h.1, Bool.not_true, Bool.false_eq_true, if_false]
              exact ih h.2
          | name n =>
              simp only [strays, reduceCtorEq, if_false, Bool.and_eq_true] at h
              have hfind : Entries.find? [] n = none := rfl
              simp only [walk, hhere, hfind, h.1, Bool.not_true, Bool.false_eq_true, if_false,
                reduceCtorEq, false_and]
              by_cases hl : tooLong .object ((d :: above).map vacant ++ trail) n = true
              · exact .inr ⟨_, if_pos hl⟩
              · exact .inl ⟨_, _, _, if_neg hl⟩

/-- The working directory's being deleted keeps no path from an object that its steps
lead to. -/
theorem isCutOff_of_reached {path : Path} {links : Nat} {start t : Trail}
    (hbase : fs.base path = some start)
    (hchase : fs.chase .object links start path.steps = .reached t) :
    fs.isCutOff .object path = false := by
  by_contra hcut
  simp only [isCutOff, Bool.not_eq_false, Bool.and_eq_true, Bool.not_eq_true', Bool.or_eq_true,
    beq_iff_eq, reduceCtorEq, false_or] at hcut
  obtain ⟨⟨habs, -⟩, hstrays⟩ := hcut
  rw [base, habs, if_neg (by simp)] at hbase
  obtain ⟨trail, -, rfl⟩ := Option.map_eq_some_iff.1 hbase
  rw [chase_eq] at hchase
  obtain ⟨_, _, _, hw⟩ | ⟨_, hw⟩ := walk_of_strays hstrays trail
  · rw [hw] at hchase
    cases links <;> cases hchase
  · rw [hw] at hchase
    cases links <;> cases hchase

theorem lookup_eq_ok_iff {path : Path} {node : Node} :
    fs.lookup path = .ok node ↔
      0 ∉ path.bytes ∧ path.bytes ≠ [] ∧ path.bytes.length ≤ pathLimit ∧
      ∃ start t, fs.base path = some start ∧
        fs.chase .object linkLimit start path.steps = .reached t ∧ fs.here t = node := by
  have hmap : fs.lookup path = .ok node ↔
      ∃ t, fs.reach .object path = .reached t ∧ fs.here t = node := by
    unfold lookup
    cases hr : fs.reach .object path <;> simp [found, Functor.map, Except.map]
  rw [hmap, reach, follow]
  by_cases h0 : 0 ∈ path.bytes
  · simp [h0]
  by_cases he : path.bytes = []
  · simp [he]
  by_cases hl : pathLimit < path.bytes.length
  · simp [h0, hl, Nat.not_le.2 hl]
  by_cases hcut : fs.isCutOff .object path = true
  · simp only [h0, he, hl, hcut, not_false_eq_true, and_false, if_false, List.isEmpty_iff, if_true,
      reduceCtorEq, false_and, exists_false, ne_eq, Nat.le_of_not_lt hl, true_and, false_iff,
      not_exists, not_and]
    intro start t hbase hchase
    rw [isCutOff_of_reached hbase hchase] at hcut
    cases hcut
  · cases hb : fs.base path <;> simp [h0, he, hl, hcut, Nat.le_of_not_lt hl]

/-- The object that a path and a name lead to is an entry of the directory that the
path alone leads to. A link may stand in the entry's place. -/
theorem lookup_join_name {p : Path} {n : Name} {node : Node} (hp : p.bytes ≠ [])
    (h : fs.lookup (p.join (.ofName n)) = .ok node) :
    ∃ mode entries child, fs.lookup p = .ok (.directory mode entries) ∧
      Entries.find? entries n = some child ∧ (child.kind ≠ .link → node = child) := by
  obtain ⟨h0, -, hlen, start, t, hbase, hchase, rfl⟩ := lookup_eq_ok_iff.1 h
  rw [Path.steps_join_name] at hchase
  obtain ⟨t', hfront⟩ := chase_of_append hchase
  obtain ⟨left, hrest⟩ := chase_append hfront
  rw [hrest] at hchase
  obtain ⟨mode, entries, child, hd, hf, hk⟩ := chase_name hchase
  refine ⟨mode, entries, child, lookup_eq_ok_iff.2 ?_, hf, hk⟩
  have hkind : (fs.here t').kind = .directory := by rw [hd]; rfl
  have hbytes : p.bytes <+: (p.join (.ofName n)).bytes := by
    obtain ⟨he, _⟩ | ⟨front, he, hb⟩ | ⟨_, hb⟩ := Path.join_name_cases p n
    · exact absurd he hp
    · exact ⟨n.bytes, by rw [he, hb]; simp⟩
    · exact ⟨_, hb.symm⟩
  refine ⟨fun hz => h0 (hbytes.subset hz), hp, Nat.le_trans hbytes.length_le hlen, start, t', ?_, ?_, hd⟩
  · rwa [base, Path.isAbsolute_join_name] at hbase
  · rw [Path.steps_eq]
    cases p.endsWithSlash with
    | false => simpa using hfront
    | true => rw [if_pos rfl, hrest]; exact chase_directory_iff.2 ⟨hkind, rfl⟩

/-- A root is the same directory with and without a slash at its end, if that makes
a path that can be followed. -/
theorem lookup_join_empty {root : Path} {node : Node}
    (h : fs.lookup (root.join .empty) = .ok node) : fs.lookup root = .ok node := by
  by_cases he : root.bytes = []
  · have hroot : root.join .empty = root := by
      rw [Path.join_not_absolute _ _ rfl, show root = ⟨[]⟩ from congrArg Path.mk he]
      rfl
    rwa [hroot] at h
  · obtain ⟨-, hj⟩ | ⟨hs, hb⟩ := Path.join_empty root he
    · rwa [hj] at h
    · obtain ⟨h0, -, hlen, start, t, hbase, hchase, rfl⟩ := lookup_eq_ok_iff.1 h
      have habs : (root.join .empty).isAbsolute = root.isAbsolute := by
        simp only [Path.isAbsolute, hb, List.head?_append_of_ne_nil _ he]
      have hsteps : (root.join .empty).steps = root.inner ++ [.directory] := by
        rw [Path.steps_eq, Path.inner, Path.inner, habs, hb, Path.split_append_slash]
        simp [Path.split, Path.endsWithSlash, hb]
      rw [hsteps] at hchase
      obtain ⟨t', hfront⟩ := chase_of_append hchase
      obtain ⟨left, hrest⟩ := chase_append hfront
      rw [hrest] at hchase
      obtain ⟨-, rfl⟩ := chase_directory_iff.1 hchase
      rw [hb] at h0 hlen
      refine lookup_eq_ok_iff.2 ⟨fun hz => h0 (by simp [hz]), he, ?_, start, t, ?_, ?_, rfl⟩
      · exact Nat.le_trans (by simp) hlen
      · rwa [base, habs] at hbase
      · rw [Path.steps_eq, hs]
        simpa using hfront

/-- An object of the tree, or what is left of a deleted directory. -/
def Known (fs : FileSystem) (node : Node) : Prop :=
  fs.top.Within node ∨ ∃ mode, node = .directory mode []

theorem Known.entry {mode : Mode} {entries : Entries} (h : fs.Known (.directory mode entries))
    {n : Name} {child : Node} (hf : Entries.find? entries n = some child) : fs.Known child := by
  obtain hw | ⟨mode', he⟩ := h
  · exact .inl (hw.entry (Entries.find?_mem hf))
  · obtain ⟨-, rfl⟩ := Node.directory.inj he
    cases hf

theorem Known.distinct {node : Node} (h : fs.Known node) : node.Distinct := by
  obtain hw | ⟨mode, rfl⟩ := h
  · exact hw.distinct fs.distinct
  · exact ⟨List.nodup_nil, trivial⟩

theorem Known.directories_le {node : Node} (h : fs.Known node) :
    node.directories ≤ fs.top.directories + 1 := by
  obtain hw | ⟨mode, rfl⟩ := h
  · exact Nat.le_succ_of_le hw.directories_le
  · exact Nat.le_add_left _ _

/-- All objects on a trail are known. -/
def OnTree (fs : FileSystem) (trail : Trail) : Prop := ∀ e ∈ trail, fs.Known e.2

/-- The trail at the end of a walk, if there is one, is known. -/
def EndsOnTree (fs : FileSystem) : Walk → Prop
  | .reached trail | .link trail _ _ => fs.OnTree trail
  | .absent _ _ _ | .failed _ => True

theorem OnTree.here {trail : Trail} (h : fs.OnTree trail) : fs.Known (fs.here trail) := by
  cases trail with
  | nil => exact .inl .self
  | cons e rest => exact h e List.mem_cons_self

theorem OnTree.entry {trail : Trail} (h : fs.OnTree trail) {mode : Mode} {entries : Entries}
    (hd : fs.here trail = .directory mode entries) {n : Name} {child : Node}
    (hf : Entries.find? entries n = some child) : fs.OnTree ((n, child) :: trail) := by
  intro e he
  rcases List.mem_cons.1 he with rfl | he
  · have hk := h.here
    rw [hd] at hk
    exact hk.entry hf
  · exact h e he

theorem walk_single_onTree {trail : Trail} (h : fs.OnTree trail) (step : Step) :
    fs.EndsOnTree (fs.walk .object trail [step]) := by
  cases step with
  | root =>
      simp only [walk]
      exact fun e he => absurd he List.not_mem_nil
  | directory =>
      simp only [walk]
      cases fs.here trail with
      | directory mode entries => exact h
      | _ => trivial
  | current =>
      simp only [walk]
      cases fs.here trail with
      | directory mode entries => dsimp only; split_ifs; exacts [trivial, h]
      | _ => trivial
  | parent =>
      have ht : fs.OnTree trail.tail := fun e he => h e (List.mem_of_mem_tail he)
      simp only [walk]
      cases fs.here trail with
      | directory mode entries => dsimp only; split_ifs; exacts [trivial, ht]
      | _ => trivial
  | name n =>
      have hentry : (Purpose.object == Purpose.entry) = false := rfl
      simp only [walk, reduceCtorEq, false_and, if_false, hentry, Bool.and_false,
        Bool.false_eq_true]
      cases hd : fs.here trail with
      | directory mode entries =>
          dsimp only
          split_ifs
          · trivial
          · trivial
          · cases hf : Entries.find? entries n with
            | none => trivial
            | some child =>
                cases child with
                | link target => exact h
                | _ => exact h.entry hd hf
      | _ => trivial

theorem walk_onTree {trail : Trail} (h : fs.OnTree trail) (steps : List Step) :
    fs.EndsOnTree (fs.walk .object trail steps) := by
  induction steps generalizing trail with
  | nil => simp only [walk]; exact h
  | cons step rest ih =>
      have hs := walk_single_onTree h step
      rw [walk_cons]
      cases hw : fs.walk .object trail [step] with
      | reached t => exact ih (by rwa [hw] at hs)
      | link t target more => rwa [hw] at hs
      | _ => trivial

theorem chase_onTree {links : Nat} {trail t : Trail} {steps : List Step} (h : fs.OnTree trail)
    (ht : fs.chase .object links trail steps = .reached t) : fs.OnTree t := by
  induction links generalizing trail steps with
  | zero =>
      have hw := walk_onTree h steps
      rw [chase_eq] at ht
      cases hs : fs.walk .object trail steps <;> simp_all [EndsOnTree]
  | succ links ih =>
      have hw := walk_onTree h steps
      rw [chase_eq] at ht
      cases hs : fs.walk .object trail steps with
      | link t' target rest =>
          rw [hs] at hw ht
          dsimp only at ht
          split at ht
          · simp at ht
          · exact ih hw ht
      | _ => simp_all [EndsOnTree]

theorem trailTo_onTree {names : List Name} {trail : Trail} (h : fs.trailTo names = some trail) :
    fs.OnTree trail := by
  induction names using List.reverseRecOn generalizing trail with
  | nil =>
      obtain rfl : [] = trail := by simpa [trailTo] using h
      exact fun e he => absurd he List.not_mem_nil
  | append_singleton names n ih =>
      rw [trailTo, List.foldlM_append] at h
      obtain ⟨front, hfront, h⟩ := Option.bind_eq_some_iff.1 h
      cases hd : fs.here front with
      | directory mode entries =>
          cases hf : Entries.find? entries n with
          | none => simp [hd, hf] at h
          | some child =>
              obtain rfl : (n, child) :: front = trail := by simpa [hd, hf] using h
              exact (ih hfront).entry hd hf
      | _ => simp [hd] at h

theorem base_onTree {path : Path} {trail : Trail} (h : fs.base path = some trail) :
    fs.OnTree trail := by
  unfold base at h
  split at h
  · obtain rfl : [] = trail := by simpa using h
    exact fun e he => absurd he List.not_mem_nil
  · obtain ⟨front, hfront, rfl⟩ := Option.map_eq_some_iff.1 h
    intro e he
    rcases List.mem_append.1 he with he | he
    · obtain ⟨d, -, rfl⟩ := List.mem_map.1 he
      exact .inr ⟨d.2, rfl⟩
    · exact trailTo_onTree hfront e he

/-- What a path names is the tree itself, held in it or a deleted directory. -/
theorem lookup_known {path : Path} {node : Node} (h : fs.lookup path = .ok node) :
    fs.Known node := by
  obtain ⟨-, -, -, start, t, hbase, hchase, rfl⟩ := lookup_eq_ok_iff.1 h
  exact (chase_onTree (base_onTree hbase) hchase).here

end TreeCompare.FileSystem
