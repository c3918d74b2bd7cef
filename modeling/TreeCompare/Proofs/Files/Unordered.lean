import TreeCompare.Files.Display
import TreeCompare.Proofs.Files.Arranged
import TreeCompare.Proofs.Files.Following

/-!
# What the order of entries does not change

Following a path asks a directory only for one entry at a time, by its name. So in an
arranged tree each walk goes the same way, and each question has the same answer, as far
as the answer does not show an order itself.
-/
namespace TreeCompare

/-- The trail to the same place in the arranged tree. -/
def Trail.arranged (trail : Trail) : Trail := trail.map fun e => (e.1, e.2.arranged)

/-- Whether no directory on the way, nor any below, has a name twice. -/
def Trail.Distinct (trail : Trail) : Prop := ∀ e ∈ trail, e.2.Distinct

namespace Trail

@[simp] theorem names_arranged (trail : Trail) : names trail.arranged = names trail := by
  rw [names, names, arranged, List.map_map]
  rfl

@[simp] theorem size_arranged (trail : Trail) : size trail.arranged = size trail := by
  induction trail with
  | nil => rfl
  | cons e trail ih => exact congrArg (e.1.bytes.length + 1 + ·) ih

/-- Deleted directories hold nothing that could be arranged. -/
theorem arranged_vacant (gone : List (Name × Mode)) (trail : Trail) :
    arranged (gone.map FileSystem.vacant ++ trail) = gone.map FileSystem.vacant ++ trail.arranged := by
  have hvacant (d : Name × Mode) : ((FileSystem.vacant d).1, (FileSystem.vacant d).2.arranged) =
      FileSystem.vacant d := by
    rw [FileSystem.vacant, Node.arranged_directory, Entries.arranged, List.map_nil,
      Entries.sorted, List.mergeSort_nil]
  rw [arranged, List.map_append, List.map_map]
  exact congrArg (· ++ _) (List.map_congr_left fun d _ => hvacant d)

theorem Distinct.nil : Distinct [] := fun _ he => absurd he List.not_mem_nil

theorem Distinct.cons {trail : Trail} (h : trail.Distinct) {node : Node} (hn : node.Distinct)
    (name : Name) : Distinct ((name, node) :: trail) :=
  List.forall_mem_cons.2 ⟨hn, h⟩

theorem Distinct.tail {trail : Trail} (h : trail.Distinct) : Distinct trail.tail :=
  fun e he => h e (List.mem_of_mem_tail he)

end Trail

namespace Walk

/-- Where the walk ends in the arranged tree. -/
def arranged : Walk → Walk
  | .reached trail => .reached trail.arranged
  | .link trail target rest => .link trail.arranged target rest
  | .absent trail missing rest => .absent trail.arranged missing rest
  | .failed error => .failed error

def Distinct : Walk → Prop
  | .reached trail | .link trail _ _ | .absent trail _ _ => trail.Distinct
  | .failed _ => True

end Walk

namespace FileSystem

variable {fs : FileSystem}

theorem here_distinct (fs : FileSystem) {trail : Trail} (h : trail.Distinct) :
    (fs.here trail).Distinct := by
  cases trail with
  | nil => exact fs.distinct
  | cons e trail => exact h e List.mem_cons_self

theorem here_arranged (trail : Trail) :
    fs.arranged.here trail.arranged = (fs.here trail).arranged := by
  cases trail <;> rfl

theorem tooLong_arranged (purpose : Purpose) (trail : Trail) (name : Name) :
    tooLong purpose trail.arranged name = tooLong purpose trail name := by
  rw [tooLong, tooLong, Trail.size_arranged]

/-- What stands at the end of a trail is a directory with its entries arranged, or the
same object in both trees. -/
theorem here_cases (fs : FileSystem) {trail : Trail} (h : trail.Distinct) :
    (∃ (mode : Mode) (entries : Entries), fs.here trail = .directory mode entries ∧
      fs.arranged.here trail.arranged = .directory mode entries.arranged ∧
      entries.names.Nodup ∧ ∀ e ∈ entries, e.2.Distinct) ∨
    (fs.here trail).kind ≠ .directory ∧ fs.arranged.here trail.arranged = fs.here trail := by
  rw [here_arranged]
  cases hd : fs.here trail with
  | directory mode entries =>
      have hdistinct := fs.here_distinct h
      rw [hd] at hdistinct
      exact .inl ⟨mode, entries, rfl, Node.arranged_directory mode entries, hdistinct.nodup,
        fun _ he => hdistinct.of_mem he⟩
  | _ => exact .inr ⟨nofun, Node.arranged_of_kind_ne nofun⟩

/-- Nothing can be done in an object that is no directory. -/
theorem walk_of_kind_ne {purpose : Purpose} {trail : Trail} (h : (fs.here trail).kind ≠ .directory)
    {step : Step} (hs : step ≠ .root) (rest : List Step) :
    fs.walk purpose trail (step :: rest) = .failed .notADirectory := by
  have hhere : ∀ (mode : Mode) (entries : Entries), fs.here trail ≠ .directory mode entries :=
    fun mode entries hd => h (congrArg Node.kind hd)
  cases step with
  | root => exact absurd rfl hs
  | _ => simp only [walk] -- each equation of `walk` for another object asks for `hhere`

/-- How a walk goes on with what a directory has under a name. -/
def enter (fs : FileSystem) (purpose : Purpose) (trail : Trail) (name : Name)
    (rest : List Step) : Option Node → Walk
  | none => .absent trail name rest
  | some (.link target) =>
      if rest.isEmpty && purpose == .entry then .reached ((name, .link target) :: trail)
      else .link trail target rest
  | some node => fs.walk purpose ((name, node) :: trail) rest

theorem enter_of_kind_ne {node : Node} (h : node.kind ≠ .link) (purpose : Purpose)
    (trail : Trail) (name : Name) (rest : List Step) :
    fs.enter purpose trail name rest (some node) =
      fs.walk purpose ((name, node) :: trail) rest := by
  cases node with
  | link target => exact absurd rfl h
  | _ => rfl

theorem walk_name {trail : Trail} {mode : Mode} {entries : Entries}
    (hd : fs.here trail = .directory mode entries) (purpose : Purpose) (name : Name)
    (rest : List Step) :
    fs.walk purpose trail (.name name :: rest) =
      if !fs.maySearch purpose mode (.name name) then .failed .permissionDenied
      else if purpose = .creation ∧ rest = [.directory] then .failed .isADirectory
      else if tooLong purpose trail name then .failed .nameTooLong
      else fs.enter purpose trail name rest (Entries.find? entries name) := by
  simp only [walk, hd]
  rfl

/-- An entry is gone on with in the same way, if the walk below it is the same. -/
theorem enter_arranged {purpose : Purpose} {trail : Trail} {name : Name} {rest : List Step}
    {child : Node} (h : trail.Distinct) (hchild : child.Distinct)
    (hwalk : fs.arranged.walk purpose (Trail.arranged ((name, child) :: trail)) rest =
      (fs.walk purpose ((name, child) :: trail) rest).arranged ∧
        (fs.walk purpose ((name, child) :: trail) rest).Distinct) :
    fs.arranged.enter purpose trail.arranged name rest (some child.arranged) =
      (fs.enter purpose trail name rest (some child)).arranged ∧
        (fs.enter purpose trail name rest (some child)).Distinct := by
  by_cases hk : child.kind = .link
  · cases child with
    | link target =>
        have htrail : Trail.arranged ((name, .link target) :: trail) =
            (name, .link target) :: trail.arranged :=
          congrArg (fun node => (name, node) :: _) (Node.arranged_link target)
        rw [Node.arranged_link, enter, enter]
        split_ifs
        · rw [← htrail]
          exact ⟨rfl, h.cons hchild name⟩
        · exact ⟨rfl, h⟩
    | _ => cases hk
  · rw [enter_of_kind_ne hk, enter_of_kind_ne (child.kind_arranged ▸ hk)]
    exact hwalk

/-- Every walk goes the same way in the arranged tree. -/
theorem walk_arranged (fs : FileSystem) (purpose : Purpose) {trail : Trail} (h : trail.Distinct)
    (steps : List Step) :
    fs.arranged.walk purpose trail.arranged steps = (fs.walk purpose trail steps).arranged ∧
      (fs.walk purpose trail steps).Distinct := by
  induction steps generalizing trail with
  | nil =>
      simp only [walk]
      exact ⟨rfl, h⟩
  | cons step rest ih =>
      by_cases hroot : step = .root
      · subst hroot
        simp only [walk]
        exact ih .nil
      obtain ⟨mode, entries, hd, hd', hnodup, hentries⟩ | ⟨hk, hd⟩ := fs.here_cases h
      · have hsearch (step : Step) :
            fs.arranged.maySearch purpose mode step = fs.maySearch purpose mode step := rfl
        have hmap : (trail.arranged).tail = Trail.arranged trail.tail := List.map_tail.symm
        cases step with
        | root => exact absurd rfl hroot
        | directory =>
            simp only [walk, hd, hd']
            exact ih h
        | current =>
            simp only [walk, hd, hd', hsearch]
            split_ifs
            · exact ⟨rfl, trivial⟩
            · exact ih h
        | parent =>
            simp only [walk, hd, hd', hsearch, hmap]
            split_ifs
            · exact ⟨rfl, trivial⟩
            · exact ih h.tail
        | name n =>
            rw [walk_name hd, walk_name hd', hsearch, tooLong_arranged,
              Entries.find?_arranged hnodup]
            split_ifs
            · exact ⟨rfl, trivial⟩
            · exact ⟨rfl, trivial⟩
            · exact ⟨rfl, trivial⟩
            cases hf : Entries.find? entries n with
            | none => exact ⟨rfl, h⟩
            | some child =>
                have hchild := h.cons (hentries _ (Entries.find?_mem hf)) n
                exact enter_arranged h (hentries _ (Entries.find?_mem hf)) (ih hchild)
      · rw [walk_of_kind_ne hk hroot, walk_of_kind_ne (hd ▸ hk) hroot]
        exact ⟨rfl, trivial⟩

theorem chase_arranged (purpose : Purpose) (links : Nat) {trail : Trail} (h : trail.Distinct)
    (steps : List Step) :
    fs.arranged.chase purpose links trail.arranged steps =
      (fs.chase purpose links trail steps).arranged := by
  induction links generalizing trail steps with
  | zero =>
      obtain ⟨hwalk, -⟩ := fs.walk_arranged purpose h steps
      rw [chase_eq, chase_eq, hwalk]
      cases fs.walk purpose trail steps <;> rfl
  | succ links ih =>
      obtain ⟨hwalk, hdistinct⟩ := fs.walk_arranged purpose h steps
      rw [chase_eq, chase_eq, hwalk]
      cases hw : fs.walk purpose trail steps with
      | link next target rest =>
          rw [hw] at hdistinct
          simp only [Walk.arranged]
          split_ifs
          · rfl
          · exact ih hdistinct _
      | _ => rfl

theorem trailTo_concat (names : List Name) (n : Name) :
    fs.trailTo (names ++ [n]) = (fs.trailTo names).bind fun front =>
      match fs.here front with
      | .directory _ entries => (Entries.find? entries n).map fun node => (n, node) :: front
      | _ => none := by
  rw [trailTo, List.foldlM_append]
  refine congrArg ((fs.trailTo names).bind) (funext fun front => ?_)
  rw [List.foldlM_cons]
  exact bind_pure _

theorem trailTo_arranged (fs : FileSystem) (names : List Name) :
    fs.arranged.trailTo names = (fs.trailTo names).map Trail.arranged := by
  induction names using List.reverseRecOn with
  | nil => rfl
  | append_singleton names n ih =>
      rw [trailTo_concat, trailTo_concat, ih, Option.bind_map, Option.map_bind]
      cases hfront : fs.trailTo names with
      | none => rfl
      | some front =>
          have hdistinct : front.Distinct :=
            fun e he => (trailTo_onTree hfront e he).distinct
          simp only [Option.bind_some, Function.comp_apply]
          obtain ⟨mode, entries, hd, hd', hnodup, -⟩ | ⟨hk, hd⟩ := fs.here_cases hdistinct
          · rw [hd, hd']
            dsimp only
            rw [Entries.find?_arranged hnodup, Option.map_map, Option.map_map]
            rfl
          · rw [hd]
            cases hh : fs.here front with
            | directory mode entries => exact absurd (congrArg Node.kind hh) hk
            | _ => rfl

theorem base_arranged (fs : FileSystem) (path : Path) :
    fs.arranged.base path = (fs.base path).map Trail.arranged := by
  unfold base
  split
  · rfl
  · change (fs.arranged.trailTo fs.workingDirectory.place).map _ = _
    rw [trailTo_arranged, Option.map_map, Option.map_map]
    refine congrArg (Option.map · _) (funext fun trail => ?_)
    exact (Trail.arranged_vacant _ _).symm

theorem isCutOff_arranged (fs : FileSystem) (purpose : Purpose) (path : Path) :
    fs.arranged.isCutOff purpose path = fs.isCutOff purpose path := by
  have hstrays (gone : List (Name × Mode)) (steps : List Step) :
      fs.arranged.strays purpose gone steps = fs.strays purpose gone steps := by
    induction steps generalizing gone with
    | nil => cases gone <;> rfl
    | cons step rest ih =>
        cases gone with
        | nil => rfl
        | cons d above =>
            have hsearch : fs.arranged.maySearch purpose d.2 step = fs.maySearch purpose d.2 step := rfl
            cases step <;> simp only [strays, hsearch, ih]
  rw [isCutOff, isCutOff, hstrays]
  rfl

theorem base_distinct {path : Path} {trail : Trail} (h : fs.base path = some trail) :
    trail.Distinct :=
  fun e he => (base_onTree h e he).distinct

theorem follow_arranged (fs : FileSystem) (purpose : Purpose) (path : Path) :
    fs.arranged.follow purpose path = (fs.follow purpose path).arranged := by
  unfold follow
  rw [base_arranged, isCutOff_arranged]
  split_ifs
  · rfl
  · rfl
  · rfl
  · cases hb : fs.base path with
    | none => rfl
    | some trail => exact chase_arranged purpose linkLimit (base_distinct hb) path.steps

theorem reach_arranged (fs : FileSystem) (purpose : Purpose) (path : Path) :
    fs.arranged.reach purpose path = (fs.reach purpose path).arranged := by
  unfold reach
  rw [follow_arranged]
  split_ifs <;> rfl

theorem found_arranged (walk : Walk) : found walk.arranged = Trail.arranged <$> found walk := by
  cases walk <;> rfl

theorem lookup_arranged (fs : FileSystem) (path : Path) :
    fs.arranged.lookup path = Node.arranged <$> fs.lookup path := by
  unfold lookup
  rw [reach_arranged, found_arranged]
  cases found (fs.reach .object path) with
  | error e => rfl
  | ok trail => exact congrArg Except.ok (here_arranged trail)

theorem kind_arranged (fs : FileSystem) (path : Path) :
    fs.arranged.kind path = fs.kind path := by
  have hlookup : Node.kind <$> fs.arranged.lookup path = Node.kind <$> fs.lookup path := by
    rw [lookup_arranged]
    cases fs.lookup path with
    | error e => rfl
    | ok node => exact congrArg Except.ok node.kind_arranged
  unfold kind
  rw [hlookup]

theorem isDirectory_arranged (fs : FileSystem) (path : Path) :
    fs.arranged.isDirectory path = fs.isDirectory path := by
  unfold isDirectory
  rw [lookup_arranged]
  cases fs.lookup path with
  | error e => rfl
  | ok node => exact congrArg (· == Kind.directory) node.kind_arranged

theorem mayRead_arranged (node : Node) : fs.arranged.mayRead node.arranged = fs.mayRead node := by
  cases node with
  | file mode content => rw [Node.arranged_file]; rfl
  | directory mode entries => rw [Node.arranged_directory]; rfl
  | link target => rw [Node.arranged_link]; rfl
  | special mode kind => rw [Node.arranged_special]; rfl

theorem open_arranged (fs : FileSystem) (path : Path) :
    fs.arranged.open path = Node.arranged <$> fs.open path := by
  unfold «open»
  rw [lookup_arranged]
  cases fs.lookup path with
  | error e => rfl
  | ok node =>
      simp only [Functor.map, Except.map, bind, Except.bind, mayRead_arranged]
      split_ifs
      · rfl
      · by_cases hk : node.kind = .directory
        · cases node with
          | directory mode entries =>
              rw [Node.arranged_directory]
              exact congrArg Except.ok (Node.arranged_directory mode entries).symm
          | _ => cases hk
        · rw [Node.arranged_of_kind_ne hk]
          split
          · rfl
          · exact congrArg Except.ok (Node.arranged_of_kind_ne hk).symm

theorem canonicalNames_arranged (fs : FileSystem) (path : Path) :
    fs.arranged.canonicalNames path = fs.canonicalNames path := by
  unfold canonicalNames
  rw [follow_arranged, found_arranged]
  cases found (fs.follow .place path) with
  | error e => rfl
  | ok trail => exact congrArg Except.ok (Trail.names_arranged trail)

theorem describe_arranged (fs : FileSystem) (path : Path) :
    fs.arranged.describe path = fs.describe path := by
  have hcanonical : fs.arranged.canonicalize path = fs.canonicalize path := by
    rw [canonicalize, canonicalNames_arranged, canonicalize]
  rw [describe, bestEffort, hcanonical]
  rfl

/-- A listing shows the order, but nothing else changes in it. -/
theorem list_arranged (fs : FileSystem) (path : Path) :
    (∃ e, fs.list path = .error e ∧ fs.arranged.list path = .error e) ∨
      ∃ listed listed', fs.list path = .ok listed ∧ fs.arranged.list path = .ok listed' ∧
        listed.Perm listed' ∧ (listed.map (·.1)).Nodup := by
  unfold list
  rw [lookup_arranged]
  cases hl : fs.lookup path with
  | error e => exact .inl ⟨e, rfl, rfl⟩
  | ok node =>
      simp only [Functor.map, Except.map, bind, Except.bind]
      by_cases hk : node.kind = .directory
      · cases node with
        | directory mode entries =>
            have hprivileged : fs.arranged.privileged = fs.privileged := rfl
            rw [Node.arranged_directory]
            simp only [hprivileged]
            split_ifs
            · refine .inr ⟨_, _, rfl, rfl, Entries.kinds_arranged_perm entries, ?_⟩
              rw [List.map_map]
              exact (lookup_known hl).distinct.nodup
            · exact .inl ⟨_, rfl, rfl⟩
        | _ => cases hk
      · rw [Node.arranged_of_kind_ne hk]
        cases node with
        | directory mode entries => exact absurd rfl hk
        | _ => exact .inl ⟨_, rfl, rfl⟩

end FileSystem

end TreeCompare
