import TreeCompare.Proofs.Testing.Listing
import TreeCompare.Proofs.Testing.Sequence
import TreeCompare.Testing.Cargo

/-!
# What is started to run the listed tests

A world that keeps what is started in it shows the world as it is. In it, a run starts
the listing and then one program for each listed name, up to the first that does not
end well, and nothing if there is no listing.
-/
namespace TreeCompare

namespace Exit

theorem success_iff {e : Exit} : e.success = true ↔ e = .code 0 := beq_iff_eq

end Exit

namespace Environment

theorem lookup_filter_ne {name other : List UInt8} (h : other ≠ name) (env : Environment) :
    (env.filter (·.1 ≠ name)).lookup other = env.lookup other := by
  induction env with
  | nil => rfl
  | cons entry env ih =>
      obtain ⟨key, value⟩ := entry
      by_cases hkey : key = name
      · rw [List.filter_cons_of_neg (by simpa using hkey), List.lookup_cons,
          beq_false_of_ne (hkey ▸ h), ih]
      · rw [List.filter_cons_of_pos (by simpa using hkey), List.lookup_cons, List.lookup_cons, ih]

/-- A variable that is set has its value, and every other variable is as before. -/
theorem get?_set (env : Environment) (name value other : List UInt8) :
    (env.set name value).get? other = if other = name then some value else env.get? other := by
  unfold get? set
  by_cases h : other = name
  · rw [if_pos h, h, List.lookup_cons_self]
  · rw [if_neg h, List.lookup_cons, beq_false_of_ne h]
    exact lookup_filter_ne h env

end Environment

namespace Launcher

variable {σ : Type}

/-- The world in which what is started is kept, in order. -/
def recorded (launch : Launcher σ) : Launcher (List Invocation × σ) := fun i s =>
  let after := launch i s.2
  ((s.1 ++ [i], after.1), after.2)

/-- The state that programs leave which are started in order, if all of them end well. -/
def succeedAll (launch : Launcher σ) : List Invocation → σ → Option σ
  | [], s => some s
  | i :: rest, s =>
      match launch i s with
      | (t, .ok done) => if done.exit = .code 0 then succeedAll launch rest t else none
      | (_, .error _) => none

theorem succeedAll_cons {launch : Launcher σ} {i : Invocation} {s t : σ} {done : Completion}
    (hlaunch : launch i s = (t, .ok done)) (rest : List Invocation) :
    launch.succeedAll (i :: rest) s =
      if done.exit = .code 0 then launch.succeedAll rest t else none := by
  rw [succeedAll, hlaunch]

theorem succeedAll_cons_error {launch : Launcher σ} {i : Invocation} {s t : σ} {e : IoError}
    (hlaunch : launch i s = (t, .error e)) (rest : List Invocation) :
    launch.succeedAll (i :: rest) s = none := by
  rw [succeedAll, hlaunch]

end Launcher

namespace Cargo

variable {σ : Type}

/-- How the listing is asked for: in the environment as it is. -/
def listCall (env : Environment) (program : Path) : Invocation :=
  ⟨program, ["test", "--", "--list"], env⟩

/-- How one test is run. -/
def testCall (env : Environment) (program : Path) (name : String) : Invocation :=
  ⟨program, ["test", name, "--", "--nocapture", "--exact"],
    env.set (Utf8.encode "RUST_LOG") (Utf8.encode "trace")⟩

theorem spawn_shows (launch : Launcher σ) (i : Invocation) :
    Action.Shows Prod.snd (spawn launch.recorded i) (spawn launch i) := by
  refine Action.shows_ofStep fun s => ?_
  dsimp only
  split <;> rfl

theorem list_shows (launch : Launcher σ) (env : Environment) (program : Path) :
    Action.Shows Prod.snd (list launch.recorded env program) (list launch env program) := by
  refine Action.Shows.bind (Action.shows_log _ _ _) fun _ => ?_
  refine (spawn_shows launch _).bind fun done => ?_
  split
  · exact Action.shows_pure _
  · exact Action.shows_ofLogged _

theorem run_shows (launch : Launcher σ) (env : Environment) (program : Path) (name : String) :
    Action.Shows Prod.snd (run launch.recorded env program name) (run launch env program name) := by
  refine Action.Shows.bind (Action.shows_log _ _ _) fun _ => ?_
  refine (spawn_shows launch _).bind fun done => ?_
  split
  · exact Action.shows_pure _
  · exact Action.shows_ofLogged _

/-- To keep what is started changes nothing else. -/
theorem harness_shows (launch : Launcher σ) (env : Environment) (program : Path) :
    Harness.Shows Prod.snd (harness launch.recorded env program) (harness launch env program) :=
  ⟨list_shows launch env program, run_shows launch env program⟩

section Recorded

variable {τ : Type} {launch : Launcher σ} {env : Environment} {program : Path}

/-- A program that can be named is started once, with what it was to be started with. -/
theorem spawn_recorded (launch : Launcher σ) {i : Invocation} (hprogram : 0 ∉ i.program.bytes)
    (harguments : ∀ argument ∈ i.arguments, '\x00' ∉ argument.toList) (calls : List Invocation)
    (s : σ) :
    spawn launch.recorded i (calls, s) = ⟨[], (calls ++ [i], (launch i s).1),
      (launch i s).2.mapError (.spawn (describe i.program i.arguments))⟩ := by
  have hnul : (decide (0 ∈ i.program.bytes) ||
      i.arguments.any (·.toList.contains '\x00')) = false := by
    simp only [Bool.or_eq_false_iff, decide_eq_false_iff_not, List.any_eq_false,
      List.contains_iff_mem]
    exact ⟨hprogram, harguments⟩
  simp only [spawn, Action.ofStep, hnul]
  rfl

theorem list_spawn (hprogram : 0 ∉ program.bytes) {calls : List Invocation} {s t : σ}
    {result : Except IoError Completion}
    (hlaunch : launch (listCall env program) s = (t, result)) :
    spawn launch.recorded (listCall env program) (calls, s) =
      ⟨[], (calls ++ [listCall env program], t),
        result.mapError (.spawn (describe program listArguments))⟩ := by
  have harguments : ∀ argument ∈ listArguments, '\x00' ∉ argument.toList := by decide
  have hspawn := spawn_recorded launch (i := listCall env program) hprogram harguments calls s
  rwa [hlaunch] at hspawn

/-- Only the exit code zero is no failure. -/
theorem judge_exit {α : Type} (done : Completion) (a : α) (e : HarnessError) (s : τ) :
    (if done.exit.success then pure a else Action.ofLogged (Logged.quiet (.error e)) :
      Action τ HarnessError α) s =
      ⟨[], s, if done.exit = .code 0 then .ok a else .error e⟩ := by
  by_cases hexit : done.exit = .code 0
  · rw [if_pos (Exit.success_iff.2 hexit), if_pos hexit]
    rfl
  · rw [if_neg (mt Exit.success_iff.1 hexit), if_neg hexit]
    rfl

theorem list_of_exit (hprogram : 0 ∉ program.bytes) (calls : List Invocation) {s t : σ}
    {done : Completion} (hlaunch : launch (listCall env program) s = (t, .ok done)) :
    ∃ events, list launch.recorded env program (calls, s) =
      ⟨events, (calls ++ [listCall env program], t),
        if done.exit = .code 0 then .ok (Utf8.lossy done.output)
        else .error (.listingFailed (describe program listArguments) done.exit.status)⟩ :=
  ⟨_, Action.log_bind (Action.bind_of_ok (list_spawn hprogram hlaunch)
    (judge_exit done _ _ _)) _ _ _⟩

theorem list_of_spawn_error (hprogram : 0 ∉ program.bytes) (calls : List Invocation) {s t : σ}
    {e : IoError} (hlaunch : launch (listCall env program) s = (t, .error e)) :
    ∃ events, list launch.recorded env program (calls, s) =
      ⟨events, (calls ++ [listCall env program], t),
        .error (.spawn (describe program listArguments) e)⟩ :=
  ⟨_, Action.log_bind (Action.bind_of_error (list_spawn hprogram hlaunch)) _ _ _⟩

/-- What is said of a test whose run has ended, or could not be started. -/
def verdict (program : Path) (name : String) :
    Except IoError Completion → Except HarnessError Unit
  | .ok done =>
      if done.exit = .code 0 then .ok () else .error (.testFailed name done.exit.status)
  | .error e => .error (.spawn (describe program (runArguments name)) e)

/-- What the error of a test tells about how its run ended. -/
theorem verdict_eq_error {name : String} {result : Except IoError Completion}
    {cause : HarnessError} (h : verdict program name result = .error cause) :
    (∀ done, result = .ok done →
      done.exit ≠ .code 0 ∧ cause = .testFailed name done.exit.status) ∧
    ∀ e, result = .error e → cause = .spawn (describe program (runArguments name)) e := by
  constructor
  · rintro done rfl
    rw [verdict] at h
    split at h
    · cases h
    · next hexit => exact ⟨hexit, (Except.error.inj h).symm⟩
  · rintro e rfl
    exact (Except.error.inj h).symm

theorem run_recorded (launch : Launcher σ) (env : Environment) (hprogram : 0 ∉ program.bytes)
    {name : String} (hname : '\x00' ∉ name.toList) (calls : List Invocation) (s : σ) :
    ∃ events, run launch.recorded env program name (calls, s) =
      ⟨events, (calls ++ [testCall env program name], (launch (testCall env program name) s).1),
        verdict program name (launch (testCall env program name) s).2⟩ := by
  have harguments : ∀ argument ∈ (testCall env program name).arguments,
      '\x00' ∉ argument.toList := by
    simp only [testCall, List.forall_mem_cons]
    exact ⟨by decide, hname, by decide⟩
  have hspawn := spawn_recorded launch hprogram harguments calls s
  rcases hlaunch : launch (testCall env program name) s with ⟨t, e | done⟩
  · rw [hlaunch] at hspawn
    exact ⟨_, Action.log_bind (Action.bind_of_error hspawn) _ _ _⟩
  · rw [hlaunch] at hspawn
    exact ⟨_, Action.log_bind (Action.bind_of_ok hspawn (judge_exit done _ _ _)) _ _ _⟩

/-- All tests pass exactly if all their runs end well, and these are what is started. -/
theorem passAll_recorded (launch : Launcher σ) (env : Environment) (hprogram : 0 ∉ program.bytes)
    {names : List String} (hnames : ∀ name ∈ names, '\x00' ∉ name.toList)
    (calls : List Invocation) (s : σ) :
    (harness launch.recorded env program).passAll names (calls, s) =
      (launch.succeedAll (names.map (testCall env program)) s).map
        fun t => (calls ++ names.map (testCall env program), t) := by
  induction names generalizing calls s with
  | nil => simp [Harness.passAll, Launcher.succeedAll]
  | cons name names ih =>
      obtain ⟨hname, hrest⟩ := List.forall_mem_cons.1 hnames
      obtain ⟨events, hrun⟩ := run_recorded launch env hprogram hname calls s
      rw [List.map_cons]
      rcases hlaunch : launch (testCall env program name) s with ⟨t, e | done⟩
      · rw [hlaunch] at hrun
        rw [Launcher.succeedAll_cons_error hlaunch]
        exact Harness.passAll_cons_error hrun names
      · rw [hlaunch] at hrun
        rw [Launcher.succeedAll_cons hlaunch]
        by_cases hexit : done.exit = .code 0
        · rw [verdict, if_pos hexit] at hrun
          rw [if_pos hexit, List.append_cons, ← ih hrest]
          exact Harness.passAll_cons hrun names
        · rw [verdict, if_neg hexit] at hrun
          rw [if_neg hexit]
          exact Harness.passAll_cons_error hrun names

section Listed

variable {names : List String} {s t u : σ} {garbage : List UInt8}
  (hprogram : 0 ∉ program.bytes)
  (hnames : ∀ name ∈ names, '\n' ∉ name.toList ∧ '\x00' ∉ name.toList)
  (hlist : launch (listCall env program) s =
    (t, .ok ⟨.code 0, Utf8.encode (Listing.ofNames names ++ "\n") ++ garbage⟩))

include hprogram hnames hlist

/-- After a listing the run does what its tests do. -/
theorem runAll_of_tests {after : List Invocation × σ} {result : Except RunError Unit}
    {more : List Log.Event}
    (htests : (harness launch.recorded env program).runTests names ([listCall env program], t) =
      ⟨more, after, result⟩) :
    ∃ events, (harness launch.recorded env program).runAll ([], s) =
      ⟨events, after, result.map fun _ => names⟩ := by
  obtain ⟨events, hlisted⟩ := list_of_exit hprogram [] hlist
  rw [if_pos rfl, List.nil_append] at hlisted
  have hparse := Listing.parse_ofNames (fun name hname => (hnames name hname).1) garbage
  rw [← hparse] at htests
  obtain ⟨all, hall⟩ := Harness.runAll_of_list hlisted htests
  rw [hparse] at hall
  exact ⟨all, hall⟩

theorem runAll_of_success
    (hpass : launch.succeedAll (names.map (testCall env program)) t = some u) :
    ∃ events, (harness launch.recorded env program).runAll ([], s) =
      ⟨events, (listCall env program :: names.map (testCall env program), u), .ok names⟩ := by
  have hpassed := passAll_recorded launch env hprogram (fun name hname => (hnames name hname).2)
    [listCall env program] t
  rw [hpass] at hpassed
  obtain ⟨more, htests⟩ := Harness.runTests_of_passAll hpassed
  exact runAll_of_tests hprogram hnames hlist htests

theorem runAll_of_failure
    (hpass : launch.succeedAll (names.map (testCall env program)) t = none) :
    ∃ passed name rest u v result cause events, names = passed ++ name :: rest ∧
      launch.succeedAll (passed.map (testCall env program)) t = some u ∧
      launch (testCall env program name) u = (v, result) ∧
      verdict program name result = .error cause ∧
      (harness launch.recorded env program).runAll ([], s) =
        ⟨events, (listCall env program :: (passed ++ [name]).map (testCall env program), v),
          .error (.test name cause)⟩ := by
  have hnul : ∀ name ∈ names, '\x00' ∉ name.toList := fun name hname => (hnames name hname).2
  have hfailed := passAll_recorded launch env hprogram hnul [listCall env program] t
  rw [hpass] at hfailed
  obtain ⟨passed, name, rest, ⟨calls, u⟩, last, after, cause, hsplit, hpassed, hrun⟩ :=
    Harness.exists_failure hfailed
  obtain ⟨hfront, hback⟩ := List.forall_mem_append.1 (hsplit ▸ hnul)
  obtain ⟨more, htests⟩ := Harness.runTests_of_failure hpassed hrun rest
  rw [← hsplit] at htests
  obtain ⟨events, hall⟩ := runAll_of_tests hprogram hnames hlist htests
  -- The state before the failing test holds the starts of the tests that have passed.
  rw [passAll_recorded launch env hprogram hfront, Option.map_eq_some_iff] at hpassed
  obtain ⟨w, hw, hstate⟩ := hpassed
  obtain ⟨rfl, rfl⟩ := Prod.mk.inj hstate
  obtain ⟨_, hrun'⟩ := run_recorded launch env hprogram (List.forall_mem_cons.1 hback).1
    ([listCall env program] ++ passed.map (testCall env program)) w
  obtain ⟨-, rfl, hcause⟩ := Effect.mk.inj (hrun.symm.trans hrun')
  refine ⟨passed, name, rest, w, _, _, cause, events, hsplit, hw, rfl, hcause.symm, ?_⟩
  rw [hall, List.map_append, List.append_assoc]
  rfl

end Listed

theorem runAll_of_listing_exit (hprogram : 0 ∉ program.bytes) {s t : σ} {done : Completion}
    (hlist : launch (listCall env program) s = (t, .ok done)) (hexit : done.exit ≠ .code 0) :
    ∃ events, (harness launch.recorded env program).runAll ([], s) =
      ⟨events, ([listCall env program], t),
        .error (.listing (.listingFailed (describe program listArguments) done.exit.status))⟩ := by
  obtain ⟨events, hlisted⟩ := list_of_exit hprogram [] hlist
  rw [if_neg hexit] at hlisted
  exact ⟨events, Harness.runAll_of_list_error hlisted⟩

theorem runAll_of_listing_error (hprogram : 0 ∉ program.bytes) {s t : σ} {e : IoError}
    (hlist : launch (listCall env program) s = (t, .error e)) :
    ∃ events, (harness launch.recorded env program).runAll ([], s) =
      ⟨events, ([listCall env program], t),
        .error (.listing (.spawn (describe program listArguments) e))⟩ := by
  obtain ⟨events, hlisted⟩ := list_of_spawn_error hprogram [] hlist
  exact ⟨events, Harness.runAll_of_list_error hlisted⟩

/-- A program whose path holds a zero byte is not started at all. -/
theorem runAll_of_nul (launch : Launcher τ) (env : Environment) (hprogram : 0 ∈ program.bytes)
    (s : τ) :
    ∃ events, (harness launch env program).runAll s =
      ⟨events, s, .error (.listing (.spawn (describe program listArguments) .nulInArgument))⟩ := by
  have hnul : (decide (0 ∈ program.bytes) ||
      listArguments.any (·.toList.contains '\x00')) = true := by
    rw [decide_eq_true hprogram, Bool.true_or]
  have hspawn : spawn launch ⟨program, listArguments, env⟩ s =
      ⟨[], s, .error (.spawn (describe program listArguments) .nulInArgument)⟩ := by
    simp only [spawn, Action.ofStep, hnul]
    rfl
  exact ⟨_, Harness.runAll_of_list_error (Action.log_bind (Action.bind_of_error hspawn) _ _ _)⟩

end Recorded

/-- Of a listing that ends well exactly the named tests are run, each by one start with
the logging turned up, in order and up to the first that does not end well. Its name and
its exit are the error. If there is no such listing, nothing is run. -/
theorem runs_listed_tests {σ : Type} (launch : Launcher σ) (env : Environment) (program : Path)
    {names : List String}
    (hnames : ∀ name ∈ names, '\n' ∉ name.toList ∧ '\x00' ∉ name.toList) (s : σ) :
    let listed : Invocation := ⟨program, ["test", "--", "--list"], env⟩
    let tested (name : String) : Invocation :=
      ⟨program, ["test", name, "--", "--nocapture", "--exact"],
        env.set (Utf8.encode "RUST_LOG") (Utf8.encode "trace")⟩
    let after := (harness launch.recorded env program).runAll ([], s)
    (harness launch env program).runAll s = ⟨after.events, after.state.2, after.result⟩ ∧
    (∀ name, (env.set (Utf8.encode "RUST_LOG") (Utf8.encode "trace")).get? name =
      if name = Utf8.encode "RUST_LOG" then some (Utf8.encode "trace") else env.get? name) ∧
    (0 ∈ program.bytes → after.state = ([], s) ∧ after.result =
      .error (.listing (.spawn (describe program listArguments) .nulInArgument))) ∧
    (0 ∉ program.bytes →
      (∀ t garbage, launch listed s = (t, .ok ⟨.code 0,
          Utf8.encode (String.join (names.map (· ++ ": test\n")) ++ "\n") ++ garbage⟩) →
        (after.result = .ok names ↔ (launch.succeedAll (names.map tested) t).isSome) ∧
        (∀ u, launch.succeedAll (names.map tested) t = some u →
          after.state = (listed :: names.map tested, u)) ∧
        (launch.succeedAll (names.map tested) t = none →
          ∃ passed name rest u v result, names = passed ++ name :: rest ∧
            launch.succeedAll (passed.map tested) t = some u ∧
            launch (tested name) u = (v, result) ∧
            after.state = (listed :: (passed ++ [name]).map tested, v) ∧
            (∀ done, result = .ok done → done.exit ≠ .code 0 ∧
              after.result = .error (.test name (.testFailed name done.exit.status))) ∧
            (∀ e, result = .error e → after.result =
              .error (.test name (.spawn (describe program (runArguments name)) e))))) ∧
      (∀ t done, launch listed s = (t, .ok done) → done.exit ≠ .code 0 →
        after.state = ([listed], t) ∧ after.result =
          .error (.listing (.listingFailed (describe program listArguments) done.exit.status))) ∧
      (∀ t e, launch listed s = (t, .error e) →
        after.state = ([listed], t) ∧
        after.result = .error (.listing (.spawn (describe program listArguments) e)))) := by
  intro listed tested after
  have hview := (harness_shows launch env program).runAll ([], s)
  refine ⟨hview, Environment.get?_set env _ _, ?_, fun hprogram => ⟨?_, ?_, ?_⟩⟩
  · intro hprogram
    exact Effect.of_exists (runAll_of_nul launch.recorded env hprogram ([], s))
  · intro t garbage hlist
    rcases hpass : launch.succeedAll (names.map tested) t with - | u
    · obtain ⟨passed, name, rest, u, v, result, cause, events, hsplit, hpassed, hlast, hcause,
        hall⟩ := runAll_of_failure hprogram hnames hlist hpass
      have hafter : after = ⟨events, _, .error (.test name cause)⟩ := hall
      obtain ⟨hexit, hspawn⟩ := verdict_eq_error hcause
      refine ⟨by simp [hafter], by simp, fun _ => ?_⟩
      rw [hafter]
      refine ⟨passed, name, rest, u, v, result, hsplit, hpassed, hlast, rfl, ?_, ?_⟩
      · intro done hdone
        obtain ⟨hne, rfl⟩ := hexit done hdone
        exact ⟨hne, rfl⟩
      · intro e he
        rw [hspawn e he]
    · obtain ⟨hstate, hresult⟩ :=
        Effect.of_exists (runAll_of_success hprogram hnames hlist hpass)
      refine ⟨iff_of_true hresult rfl, fun u' hu' => ?_, by simp⟩
      obtain rfl := Option.some.inj hu'
      exact hstate
  · intro t done hlist hexit
    exact Effect.of_exists (runAll_of_listing_exit hprogram hlist hexit)
  · intro t e hlist
    exact Effect.of_exists (runAll_of_listing_error hprogram hlist)

/-- Of three tests, the first of them named like a listed line and the second without a
name, the second is killed. Bytes that are no text stand behind the listing. -/
theorem runs_listed_tests_killed :
    let names := ["a: test", "", "b"]
    let launch : Launcher Nat := fun i runs =>
      if i.arguments.length = 3 then
        (runs, .ok ⟨.code 0, Utf8.encode (String.join (names.map (· ++ ": test\n")) ++ "\n") ++
          [0xff, 0x0a]⟩)
      else (runs + 1, .ok ⟨if runs = 1 then .signal else .code 0, []⟩)
    let after := (harness launch.recorded [] ⟨[0x2f, 0x63]⟩).runAll ([], 0)
    after.state.1.length = 3 ∧ after.result = .error (.test "" (.testFailed "" (-1))) := by
  intro names launch after
  have hnames : ∀ name ∈ names, '\n' ∉ name.toList ∧ '\x00' ∉ name.toList := by decide
  obtain ⟨-, -, -, hstarted⟩ := runs_listed_tests launch [] ⟨[0x2f, 0x63]⟩ hnames 0
  obtain ⟨hlisted, -⟩ := hstarted (by decide)
  obtain ⟨-, -, hfailed⟩ := hlisted 0 [0xff, 0x0a] rfl
  obtain ⟨passed, name, rest, u, v, result, hsplit, hpassed, hlast, hstate, hend, -⟩ :=
    hfailed (by decide)
  rcases passed with _ | ⟨first, _ | ⟨second, passed⟩⟩
  · obtain rfl := Option.some.inj hpassed
    obtain ⟨-, rfl⟩ := Prod.mk.inj hlast
    exact absurd rfl (hend _ rfl).1
  · simp only [names, List.cons_append, List.nil_append, List.cons.injEq] at hsplit
    obtain ⟨rfl, rfl, -⟩ := hsplit
    obtain rfl := Option.some.inj hpassed
    obtain ⟨-, rfl⟩ := Prod.mk.inj hlast
    exact ⟨congrArg (fun state => state.1.length) hstate, (hend _ rfl).2⟩
  · cases hpassed

end Cargo

end TreeCompare
