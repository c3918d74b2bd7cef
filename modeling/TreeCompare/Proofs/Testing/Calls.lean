import TreeCompare.Proofs.Testing.Sequence

/-!
# What a run asks of its harness

A harness that keeps what it is asked for does the rest as before, so what it has kept
at the end of a run is what the run has asked for: first the listing, then the tests
that are listed, one after the other and as often as they are listed, up to the first
that fails. Each test is run in the state that the tests before it leave, so a name
that occurs twice may pass the first time and fail the second.
-/
namespace TreeCompare

namespace Action

variable {σ ε α γ : Type}

/-- The action that puts a note to those in its state and acts on the rest of the state. -/
def noted (note : γ) (x : Action σ ε α) : Action (List γ × σ) ε α := fun s =>
  let after := x s.2
  ⟨after.events, (s.1 ++ [note], after.state), after.result⟩

theorem shows_noted (note : γ) (x : Action σ ε α) : Shows Prod.snd (x.noted note) x :=
  fun _ => rfl

theorem noted_of {x : Action σ ε α} {s t : σ} {events : List Log.Event} {result : Except ε α}
    (h : x s = ⟨events, t, result⟩) (note : γ) (notes : List γ) :
    x.noted note (notes, s) = ⟨events, (notes ++ [note], t), result⟩ := by
  rw [noted, h]

end Action

namespace Harness

variable {σ : Type} {h : Harness σ}

/-- What a harness is asked for. -/
inductive Call
  | listing
  | test (name : String)
deriving DecidableEq, Repr

/-- The harness that keeps what it is asked for, in order. -/
def recorded (h : Harness σ) : Harness (List Call × σ) where
  list := h.list.noted .listing
  run name := (h.run name).noted (.test name)

theorem recorded_shows (h : Harness σ) : Shows Prod.snd h.recorded h :=
  ⟨Action.shows_noted _ _, fun _ => Action.shows_noted _ _⟩

/-- The state that tests leave which are run in order, whether they pass or not. -/
def stateAfter (h : Harness σ) (names : List String) (s : σ) : σ :=
  names.foldl (fun s name => (h.run name s).state) s

theorem stateAfter_concat (names : List String) (name : String) (s : σ) :
    h.stateAfter (names ++ [name]) s = (h.run name (h.stateAfter names s)).state := by
  rw [stateAfter, List.foldl_append]
  rfl

/-- What the test at a position does, run in the state that those before it leave. -/
def turn (h : Harness σ) (names : List String) (s : σ) (k : Fin names.length) :
    Effect σ HarnessError Unit :=
  h.run names[k] (h.stateAfter (names.take k) s)

theorem passAll_append (front back : List String) (s : σ) :
    h.passAll (front ++ back) s = (h.passAll front s).bind (h.passAll back) := by
  induction front generalizing s with
  | nil => rfl
  | cons name front ih =>
      rw [List.cons_append]
      rcases hrun : h.run name s with ⟨events, t, e | ⟨⟩⟩
      · rw [passAll_cons_error hrun, passAll_cons_error hrun]
        rfl
      · rw [passAll_cons hrun, passAll_cons hrun, ih]

theorem stateAfter_of_passAll {names : List String} {s t : σ}
    (hpass : h.passAll names s = some t) : h.stateAfter names s = t := by
  induction names generalizing s with
  | nil => exact Option.some.inj hpass
  | cons name names ih =>
      rcases hrun : h.run name s with ⟨events, u, e | ⟨⟩⟩
      · rw [passAll_cons_error hrun] at hpass
        cases hpass
      · rw [passAll_cons hrun] at hpass
        rw [stateAfter, List.foldl_cons, hrun]
        exact ih hpass

/-- If tests all pass, each of them passes in its turn. -/
theorem turn_of_passAll {names : List String} {n : Nat} {s t : σ}
    (hpass : h.passAll (names.take n) s = some t) (k : Fin names.length) (hk : k < n) :
    (h.turn names s k).result = .ok () := by
  have hlength : k < (names.take n).length := by
    rw [List.length_take]
    omega
  have hsplit : names.take n = names.take k ++ names[k] :: (names.take n).drop (k + 1) := by
    calc names.take n = (names.take n).take k ++ (names.take n).drop k :=
          (List.take_append_drop _ _).symm
      _ = names.take k ++ (names.take n).drop k := by rw [List.take_take, Nat.min_eq_left (Nat.le_of_lt hk)]
      _ = names.take k ++ names[k] :: (names.take n).drop (k + 1) := by
          rw [List.drop_eq_getElem_cons hlength, List.getElem_take]
          rfl
  rw [hsplit, passAll_append, Option.bind_eq_some_iff] at hpass
  obtain ⟨u, hbefore, hpass⟩ := hpass
  rw [turn, stateAfter_of_passAll hbefore]
  rcases hrun : h.run names[k] u with ⟨events, v, e | ⟨⟩⟩
  · rw [passAll_cons_error hrun] at hpass
    cases hpass
  · rfl

/-- If not all tests pass, there is a first whose turn fails. -/
theorem exists_failed_turn {names : List String} {s : σ} (hpass : h.passAll names s = none) :
    ∃ (k : Fin names.length) (t u : σ) (events : List Log.Event) (e : HarnessError),
      h.passAll (names.take k) s = some t ∧ h.run names[k] t = ⟨events, u, .error e⟩ := by
  obtain ⟨passed, name, rest, t, events, u, e, rfl, hpassed, hrun⟩ := exists_failure hpass
  refine ⟨⟨passed.length, by simp⟩, t, u, events, e, ?_, ?_⟩
  · rwa [List.take_left]
  · simpa using hrun

/-- All tests pass a harness that keeps them exactly if they pass. -/
theorem passAll_recorded (names : List String) (calls : List Call) (s : σ) :
    h.recorded.passAll names (calls, s) =
      (h.passAll names s).map fun t => (calls ++ names.map .test, t) := by
  induction names generalizing calls s with
  | nil => simp [passAll]
  | cons name names ih =>
      rcases hrun : h.run name s with ⟨events, t, e | ⟨⟩⟩
      · have hkept := Action.noted_of hrun (Call.test name) calls
        rw [passAll_cons_error hrun]
        exact passAll_cons_error hkept names
      · have hkept := Action.noted_of hrun (Call.test name) calls
        rw [passAll_cons hrun, List.map_cons, List.append_cons, ← ih]
        exact passAll_cons hkept names

section Listed

variable {s t : σ} {events : List Log.Event} {listing : String} {names : List String}
  (hlist : h.list s = ⟨events, t, .ok listing⟩) (hnames : Listing.parse listing = names)
include hlist hnames

/-- If all listed tests pass, all of them are run. -/
theorem runAll_of_pass {u : σ} (hpass : h.passAll names t = some u) :
    (h.recorded.runAll ([], s)).state =
        (.listing :: names.map .test, h.stateAfter names t) ∧
      (h.recorded.runAll ([], s)).result = .ok names := by
  subst hnames
  have hkept := Action.noted_of hlist Call.listing []
  have hpassed := passAll_recorded (h := h) (Listing.parse listing) [.listing] t
  rw [hpass, Option.map_some] at hpassed
  obtain ⟨more, htests⟩ := runTests_of_passAll hpassed
  have hall := Effect.of_exists (runAll_of_list hkept htests)
  rwa [stateAfter_of_passAll hpass]

/-- If a listed test fails in its turn and all before it pass, it is the last to be run. -/
theorem runAll_of_fail {k : Fin names.length} {u v : σ} {last : List Log.Event}
    {e : HarnessError} (hpass : h.passAll (names.take k) t = some u)
    (hrun : h.run names[k] u = ⟨last, v, .error e⟩) :
    (h.recorded.runAll ([], s)).state =
        (.listing :: (names.take (k + 1)).map .test, h.stateAfter (names.take (k + 1)) t) ∧
      (h.recorded.runAll ([], s)).result = .error (.test names[k] e) := by
  have hkept := Action.noted_of hlist Call.listing []
  have hpassed := passAll_recorded (h := h) (names.take k) [.listing] t
  rw [hpass, Option.map_some] at hpassed
  have hlast := Action.noted_of hrun (Call.test names[k]) ([.listing] ++ (names.take k).map .test)
  obtain ⟨more, htests⟩ := runTests_of_failure hpassed hlast (names.drop (k + 1))
  have hsplit : names.take k ++ names[k] :: names.drop (k + 1) = names := by
    calc names.take k ++ names[k] :: names.drop (k + 1) = names.take k ++ names.drop k := by
          rw [List.drop_eq_getElem_cons k.isLt]
          rfl
      _ = names := List.take_append_drop _ _
  have hfront : names.take (k + 1) = names.take k ++ [names[k]] :=
    (List.take_append_getElem k.isLt).symm
  rw [hsplit] at htests
  -- the position depends on the names, so they are not rewritten in the run itself
  have hparsed := (congrArg (h.recorded.runTests · ([.listing], t)) hnames).trans htests
  obtain ⟨hstate, hresult⟩ := Effect.of_exists (runAll_of_list hkept hparsed)
  refine ⟨?_, hresult⟩
  rw [hstate, hfront, stateAfter_concat, stateAfter_of_passAll hpass, hrun, List.map_append]
  rfl

end Listed

/-- A run asks for the listing once. If there is none, it asks for nothing more. If there
is one, it asks for the listed tests in order: for all of them if each passes in its
turn, and else up to the first that fails, whose name and error it reports. What it does
to the state is what it has asked for. -/
theorem runAll_calls (h : Harness σ) (s : σ) :
    let listed := h.list s
    let after := h.recorded.runAll ([], s)
    h.runAll s = ⟨after.events, after.state.2, after.result⟩ ∧
    (∀ e, listed.result = .error e →
      after.state = ([.listing], listed.state) ∧ after.result = .error (.listing e)) ∧
    ∀ listing names, listed.result = .ok listing → Listing.parse listing = names →
      ∃ n ≤ names.length,
        after.state = (.listing :: (names.take n).map .test,
          h.stateAfter (names.take n) listed.state) ∧
        (after.result = .ok names ↔
          n = names.length ∧ ∀ k, (h.turn names listed.state k).result = .ok ()) ∧
        (after.result ≠ .ok names → ∃ (k : Fin names.length) (e : HarnessError), n = k + 1 ∧
          (∀ j < k, (h.turn names listed.state j).result = .ok ()) ∧
          (h.turn names listed.state k).result = .error e ∧
          after.result = .error (.test names[k] e)) := by
  intro listed after
  refine ⟨(recorded_shows h).runAll ([], s), fun e hlisted => ?_,
    fun listing names hlisted hnames => ?_⟩
  · have hlist : h.list s = ⟨listed.events, listed.state, .error e⟩ := by rw [← hlisted]
    exact Effect.of_exists ⟨_, runAll_of_list_error (Action.noted_of hlist Call.listing [])⟩
  have hlist : h.list s = ⟨listed.events, listed.state, .ok listing⟩ := by rw [← hlisted]
  rcases hpass : h.passAll names listed.state with - | u
  · obtain ⟨k, u, v, last, e, hpassed, hrun⟩ := exists_failed_turn hpass
    obtain ⟨hstate, hresult⟩ := runAll_of_fail hlist hnames hpassed hrun
    have hturn : (h.turn names listed.state k).result = .error e := by
      rw [turn, stateAfter_of_passAll hpassed, hrun]
    refine ⟨k + 1, k.isLt, hstate, ?_, fun _ => ⟨k, e, rfl, fun j hj => ?_, hturn, hresult⟩⟩
    · constructor
      · intro hok
        cases hresult.symm.trans hok
      · rintro ⟨-, hall⟩
        cases hturn.symm.trans (hall k)
    · exact turn_of_passAll hpassed j hj
  · obtain ⟨hstate, hresult⟩ := runAll_of_pass hlist hnames hpass
    have hall (k : Fin names.length) : (h.turn names listed.state k).result = .ok () := by
      rw [← List.take_length (l := names)] at hpass
      exact turn_of_passAll hpass k k.isLt
    refine ⟨names.length, Nat.le_refl _, ?_, iff_of_true hresult ⟨rfl, hall⟩, ?_⟩
    · rw [List.take_length]
      exact hstate
    · exact fun hne => absurd hresult hne

/-- The name that is listed first and third passes once and then fails. -/
theorem runAll_calls_repeated :
    let h : Harness Nat := ⟨fun runs => ⟨[], runs, .ok "a: test\nb: test\na: test\nc: test\n"⟩,
      fun name runs => ⟨[], runs + 1, if runs = 2 then .error (.testFailed name 101) else .ok ()⟩⟩
    (h.recorded.runAll ([], 0)).state = ([.listing, .test "a", .test "b", .test "a"], 3) := by
  intro h
  have hparse : Listing.parse "a: test\nb: test\na: test\nc: test\n" = ["a", "b", "a", "c"] := by
    decide
  have hpasses (k : Fin 4) (hk : k.val < 2) :
      (h.turn ["a", "b", "a", "c"] 0 k).result = .ok () := by
    have hk' : k = 0 ∨ k = 1 := by omega
    obtain rfl | rfl := hk'
    · rfl
    · rfl
  have hfails : (h.turn ["a", "b", "a", "c"] 0 2).result = .error (.testFailed "a" 101) := rfl
  obtain ⟨-, -, hlisted⟩ := runAll_calls h 0
  obtain ⟨n, -, hstate, hiff, hfirst⟩ := hlisted _ _ rfl hparse
  have hnot : (h.recorded.runAll ([], 0)).result ≠ .ok ["a", "b", "a", "c"] := by
    intro hok
    cases hfails.symm.trans ((hiff.1 hok).2 2)
  obtain ⟨k, e, rfl, hbefore, hturn, -⟩ := hfirst hnot
  obtain hlt | heq | hgt := Nat.lt_trichotomy k.val 2
  · cases hturn.symm.trans (hpasses k hlt)
  · rw [heq] at hstate
    exact hstate
  · cases hfails.symm.trans (hbefore 2 hgt)

end Harness

end TreeCompare
