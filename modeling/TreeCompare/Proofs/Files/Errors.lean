import TreeCompare.Proofs.Files.Unordered

/-!
# Errors of looking at files

Whatever is asked of a file system, what it can fail with is one of a few errors of the
operating system, or that a path holds a zero byte. None of them has a message of its
caller's own.
-/
namespace TreeCompare

/-- The errors that looking at files and reading them can end with. -/
def IoError.ofFiles : List IoError :=
  [.notFound, .noSuchDevice, .permissionDenied, .notADirectory, .isADirectory, .nameTooLong,
    .tooManyLinks, .nulInPath]

/-- Whether all that a computation can fail with is of a sort. -/
def OnlyFails {ε α : Type} (sort : ε → Prop) (x : Except ε α) : Prop :=
  ∀ e, x = .error e → sort e

namespace OnlyFails

variable {ε ε' α β : Type} {sort : ε → Prop}

theorem ok (a : α) : OnlyFails sort (.ok a) := nofun

theorem error {e : ε} (h : sort e) : OnlyFails sort (.error e : Except ε α) := by
  intro e' he
  cases he
  exact h

theorem bind {x : Except ε α} (h : OnlyFails sort x) {f : α → Except ε β}
    (hf : ∀ a, OnlyFails sort (f a)) : OnlyFails sort (x >>= f) := by
  cases x with
  | error e => exact error (h e rfl)
  | ok a => exact hf a

theorem map {x : Except ε α} (h : OnlyFails sort x) (f : α → β) : OnlyFails sort (f <$> x) := by
  cases x with
  | error e => exact error (h e rfl)
  | ok a => exact ok (f a)

theorem mapError {x : Except ε α} (h : OnlyFails sort x) {sort' : ε' → Prop} {f : ε → ε'}
    (hf : ∀ e, sort e → sort' (f e)) : OnlyFails sort' (x.mapError f) := by
  cases x with
  | error e => exact error (hf e (h e rfl))
  | ok a => exact ok a

end OnlyFails

open IoError (ofFiles)

theorem Node.read_fails (node : Node) : OnlyFails (· ∈ ofFiles) node.read := by
  cases node with
  | directory mode entries => exact .error (by decide)
  | _ => exact .ok _

namespace FileSystem

variable {fs : FileSystem} {purpose : Purpose} {e : IoError}

theorem enter_failed {trail : Trail} {name : Name} {rest : List Step} {child : Option Node}
    (hwalk : ∀ node, fs.walk purpose ((name, node) :: trail) rest = .failed e → e ∈ ofFiles)
    (h : fs.enter purpose trail name rest child = .failed e) : e ∈ ofFiles := by
  cases child with
  | none => cases h
  | some node =>
      by_cases hk : node.kind = .link
      · cases node with
        | link target =>
            rw [enter] at h
            split at h <;> cases h
        | _ => cases hk
      · rw [enter_of_kind_ne hk] at h
        exact hwalk node h

theorem walk_failed {trail : Trail} {steps : List Step}
    (h : fs.walk purpose trail steps = .failed e) : e ∈ ofFiles := by
  induction steps generalizing trail with
  | nil =>
      simp only [walk] at h
      cases h
  | cons step rest ih =>
      by_cases hroot : step = .root
      · subst hroot
        simp only [walk] at h
        exact ih h
      by_cases hk : (fs.here trail).kind = .directory
      · cases hd : fs.here trail with
        | directory mode entries =>
            cases step with
            | root => exact absurd rfl hroot
            | directory =>
                simp only [walk, hd] at h
                exact ih h
            | current | parent =>
                simp only [walk, hd] at h
                split at h
                · cases h
                  decide
                · exact ih h
            | name n =>
                rw [walk_name hd] at h
                split_ifs at h
                · cases h
                  decide
                · cases h
                  decide
                · cases h
                  decide
                · exact enter_failed (fun _ => ih) h
        | _ =>
            rw [hd] at hk
            cases hk
      · rw [walk_of_kind_ne hk hroot] at h
        cases h
        decide

theorem chase_failed {links : Nat} {trail : Trail} {steps : List Step}
    (h : fs.chase purpose links trail steps = .failed e) : e ∈ ofFiles := by
  induction links generalizing trail steps with
  | zero =>
      rw [chase_eq] at h
      cases hw : fs.walk purpose trail steps with
      | link next target rest =>
          rw [hw] at h
          cases h
          decide
      | failed error =>
          rw [hw] at h
          cases h
          exact walk_failed hw
      | _ =>
          rw [hw] at h
          cases h
  | succ links ih =>
      rw [chase_eq] at h
      cases hw : fs.walk purpose trail steps with
      | link next target rest =>
          simp only [hw] at h
          split at h
          · cases h
            decide
          · exact ih h
      | failed error =>
          rw [hw] at h
          cases h
          exact walk_failed hw
      | _ =>
          rw [hw] at h
          cases h

theorem follow_failed {path : Path} (h : fs.follow purpose path = .failed e) : e ∈ ofFiles := by
  unfold follow at h
  split_ifs at h
  · cases h
    decide
  · cases h
    decide
  · cases h
    decide
  · cases hb : fs.base path with
    | none =>
        rw [hb] at h
        cases h
        decide
    | some trail =>
        rw [hb] at h
        exact chase_failed h

theorem reach_failed {path : Path} (h : fs.reach purpose path = .failed e) : e ∈ ofFiles := by
  unfold reach at h
  split at h
  · cases h
    decide
  · exact follow_failed h

theorem lookup_fails (fs : FileSystem) (path : Path) :
    OnlyFails (· ∈ ofFiles) (fs.lookup path) := by
  have hfound : OnlyFails (· ∈ ofFiles) (found (fs.reach .object path)) := by
    cases hr : fs.reach .object path with
    | reached trail => exact .ok trail
    | failed error => exact .error (reach_failed hr)
    | _ => exact .error (by decide)
  exact hfound.map fs.here

theorem kind_fails (fs : FileSystem) (path : Path) : OnlyFails (· ∈ ofFiles) (fs.kind path) := by
  unfold kind
  split_ifs
  · exact .ok _
  · exact (fs.lookup_fails path).map Node.kind

theorem list_fails (fs : FileSystem) (path : Path) : OnlyFails (· ∈ ofFiles) (fs.list path) := by
  refine (fs.lookup_fails path).bind fun node => ?_
  cases node with
  | directory mode entries =>
      dsimp only
      split_ifs
      · exact .ok _
      · exact .error (by decide)
  | _ => exact .error (by decide)

theorem open_fails (fs : FileSystem) (path : Path) : OnlyFails (· ∈ ofFiles) (fs.open path) := by
  refine (fs.lookup_fails path).bind fun node => ?_
  split_ifs
  · exact .error (by decide)
  · split
    · exact .error (by decide)
    · exact .ok _

end FileSystem

end TreeCompare
