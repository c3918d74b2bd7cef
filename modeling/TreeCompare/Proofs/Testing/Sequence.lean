import TreeCompare.Proofs.Log.View
import TreeCompare.Testing.Harness

/-!
# Tests in sequence

A run of tests either passes them all or stops at the first that fails, in the state
that the tests before it have left. What is shown by a harness on a larger state is
shown by its runs.
-/
namespace TreeCompare.Harness

variable {σ τ : Type}

/-- The state that tests leave which are run in order, if all of them pass. -/
def passAll (h : Harness σ) : List String → σ → Option σ
  | [], s => some s
  | name :: rest, s =>
      match (h.run name s).result with
      | .ok _ => passAll h rest (h.run name s).state
      | .error _ => none

theorem passAll_cons {h : Harness σ} {name : String} {s t : σ} {events : List Log.Event}
    (hrun : h.run name s = ⟨events, t, .ok ()⟩) (rest : List String) :
    h.passAll (name :: rest) s = h.passAll rest t := by
  rw [passAll, hrun]

theorem passAll_cons_error {h : Harness σ} {name : String} {s t : σ} {e : HarnessError}
    {events : List Log.Event} (hrun : h.run name s = ⟨events, t, .error e⟩) (rest : List String) :
    h.passAll (name :: rest) s = none := by
  rw [passAll, hrun]

/-- One test that passes is logged and left behind. -/
theorem runTests_cons {h : Harness σ} {name : String} {rest : List String} {s t u : σ}
    {result : Except RunError Unit} {first events : List Log.Event}
    (hrun : h.run name s = ⟨first, t, .ok ()⟩)
    (hrest : h.runTests rest t = ⟨events, u, result⟩) :
    ∃ all, h.runTests (name :: rest) s = ⟨all, u, result⟩ := by
  have hpassed := Action.mapError_of hrun (RunError.test name)
  exact ⟨_, Action.log_bind (Action.bind_of_ok hpassed hrest) _ _ _⟩

theorem runTests_cons_error {h : Harness σ} {name : String} {s t : σ} {e : HarnessError}
    {first : List Log.Event} (hrun : h.run name s = ⟨first, t, .error e⟩) (rest : List String) :
    ∃ all, h.runTests (name :: rest) s = ⟨all, t, .error (.test name e)⟩ := by
  have hfailed := Action.mapError_of hrun (RunError.test name)
  exact ⟨_, Action.log_bind (Action.bind_of_error hfailed) _ _ _⟩

theorem runTests_of_passAll {h : Harness σ} {names : List String} {s t : σ}
    (hpass : h.passAll names s = some t) :
    ∃ events, h.runTests names s = ⟨events, t, .ok ()⟩ := by
  induction names generalizing s with
  | nil =>
      obtain rfl := Option.some.inj hpass
      exact ⟨[], rfl⟩
  | cons name rest ih =>
      rcases hrun : h.run name s with ⟨first, u, e | ⟨⟩⟩
      · rw [passAll_cons_error hrun] at hpass
        cases hpass
      · rw [passAll_cons hrun] at hpass
        obtain ⟨events, hrest⟩ := ih hpass
        exact runTests_cons hrun hrest

/-- The first test that fails ends the run in the state that it leaves. -/
theorem runTests_of_failure {h : Harness σ} {passed : List String} {name : String} {s t u : σ}
    {e : HarnessError} {last : List Log.Event} (hpass : h.passAll passed s = some t)
    (hrun : h.run name t = ⟨last, u, .error e⟩) (rest : List String) :
    ∃ events, h.runTests (passed ++ name :: rest) s = ⟨events, u, .error (.test name e)⟩ := by
  induction passed generalizing s with
  | nil =>
      obtain rfl := Option.some.inj hpass
      exact runTests_cons_error hrun rest
  | cons first passed ih =>
      rcases hfirst : h.run first s with ⟨events, v, e' | ⟨⟩⟩
      · rw [passAll_cons_error hfirst] at hpass
        cases hpass
      · rw [passAll_cons hfirst] at hpass
        obtain ⟨more, hrest⟩ := ih hpass
        exact runTests_cons hfirst hrest

/-- If not all tests pass, there is a first that fails. -/
theorem exists_failure {h : Harness σ} {names : List String} {s : σ}
    (hpass : h.passAll names s = none) :
    ∃ passed name rest t last u e, names = passed ++ name :: rest ∧
      h.passAll passed s = some t ∧ h.run name t = ⟨last, u, .error e⟩ := by
  induction names generalizing s with
  | nil => cases hpass
  | cons name names ih =>
      rcases hrun : h.run name s with ⟨last, u, e | ⟨⟩⟩
      · exact ⟨[], name, names, s, last, u, e, rfl, rfl, hrun⟩
      · rw [passAll_cons hrun] at hpass
        obtain ⟨passed, next, rest, t, last, v, e, rfl, hpassed, hnext⟩ := ih hpass
        exact ⟨name :: passed, next, rest, t, last, v, e, rfl,
          by rw [passAll_cons hrun, hpassed], hnext⟩

theorem runAll_of_list_error {h : Harness σ} {s t : σ} {e : HarnessError}
    {events : List Log.Event} (hlist : h.list s = ⟨events, t, .error e⟩) :
    h.runAll s = ⟨events, t, .error (.listing e)⟩ :=
  Action.bind_of_error (Action.mapError_of hlist RunError.listing)

/-- A run does to the state what its tests do. -/
theorem runAll_of_list {h : Harness σ} {s t u : σ} {listing : String}
    {result : Except RunError Unit} {events more : List Log.Event}
    (hlist : h.list s = ⟨events, t, .ok listing⟩)
    (htests : h.runTests (Listing.parse listing) t = ⟨more, u, result⟩) :
    ∃ all, h.runAll s = ⟨all, u, result.map fun _ => Listing.parse listing⟩ := by
  have hlisted := Action.mapError_of hlist RunError.listing
  cases result with
  | error e =>
      exact ⟨_, Action.bind_of_ok hlisted (Action.log_bind (Action.bind_of_error htests) _ _ _)⟩
  | ok a =>
      exact ⟨_, Action.bind_of_ok hlisted (Action.log_bind (Action.bind_of_ok htests rfl) _ _ _)⟩

/-- Whether a harness does on a larger state what another does in view of it. -/
structure Shows (view : τ → σ) (h : Harness τ) (h' : Harness σ) : Prop where
  list : Action.Shows view h.list h'.list
  run (name : String) : Action.Shows view (h.run name) (h'.run name)

theorem Shows.runTests {view : τ → σ} {h : Harness τ} {h' : Harness σ} (hs : Shows view h h')
    (names : List String) : Action.Shows view (h.runTests names) (h'.runTests names) := by
  induction names with
  | nil => exact Action.shows_pure ()
  | cons name rest ih =>
      refine Action.Shows.bind (Action.shows_log _ _ _) fun _ => ?_
      exact ((hs.run name).mapError _).bind fun _ => ih

theorem Shows.runAll {view : τ → σ} {h : Harness τ} {h' : Harness σ} (hs : Shows view h h') :
    Action.Shows view h.runAll h'.runAll := by
  refine (hs.list.mapError _).bind fun listing => ?_
  refine Action.Shows.bind (Action.shows_log _ _ _) fun _ => ?_
  exact (hs.runTests _).bind fun _ => Action.shows_pure _

end TreeCompare.Harness
