import TreeCompare.Proofs.Fault.Causes
import TreeCompare.Proofs.Fault.Messages
import TreeCompare.Proofs.Report.Writing
import TreeCompare.Proofs.Scan.Loop

/-!
# Failures on the console

Most messages of a failure end with the path that failed, unquoted, and the message of the
system's error is below them. The cleaning of the report looks at such a path like at any
end of a message: white space and colons at its end are lost, and so is an end that reads
like the system's error. All other messages are fixed or enclose the path, and are shown
as they are; but a sink may refuse with any message, also with one that reads like the end
of the fixed message above it.
-/
namespace TreeCompare

open Console (Clipped Cut Includes Shortened Uncut)
open IoError (ofFiles)

/-- The failure of a scan that ended a comparison; the other failures name no path. -/
def CompareError.scan? : CompareError → Option ScanError
  | .source cause | .dest cause => some cause
  | .output _ => none

/-- The error of the sink that ended a comparison. -/
def CompareError.refusal? : CompareError → Option IoError
  | .source _ | .dest _ => none
  | .output cause => some cause

/-- A failure of one of the three operations: the messages of its chain, the path that
failed, the path with its cause if a message ends with it, and the sink's error if it was
the sink that failed. -/
inductive Failure (fs : FileSystem) :
    List String → Option Path → Option (Path × IoError) → Option IoError → Prop
  | scan {root : Path} {e : ScanError} (h : (Snapshot.scan fs root).result = .error e) :
      Failure fs (e.chain fs) (some e.place) e.exposed? none
  | read {root path : Path} {e : FileError} (h : Record.read fs root path = .error e) :
      Failure fs (e.chain fs) (some e.exposed.1) (some e.exposed) none
  | run {source dest : Path} {style : Style} {colors : Bool} {sink : Sink} {e : CompareError}
      (h : (Report.run fs source dest style colors sink).result = .error e) :
      Failure fs (e.chain fs) (e.scan?.map (·.place)) (e.scan?.bind (·.exposed?)) e.refusal?

/-- How the messages of a failure are laid out: none of them is cut, or only one can be,
which ends with the path that failed or stands above the sink's error. -/
inductive Laid (fs : FileSystem) :
    List String → Option Path → Option (Path × IoError) → Option IoError → Prop
  | enclosed {chain : List String} {place? : Option Path} (hu : Uncut chain) (hne : "" ∉ chain)
      (hplace : ∀ path ∈ place?, ∃ message ∈ chain, Includes message (fs.describe path)) :
      Laid fs chain place? none none
  | exposed (front : List String) {lead : String} (path : Path) {cause : IoError}
      (hl : lead ∈ leads) (hc : cause ∈ ofFiles) (hne : "" ∉ front)
      (hu : Uncut (front ++ [lead ++ " " ++ fs.describe path])) :
      Laid fs (front ++ [lead ++ " " ++ fs.describe path, cause.message]) (some path)
        (some (path, cause)) none
  | refused (cause : IoError) :
      Laid fs [(CompareError.output cause).message, cause.message] none none (some cause)

section Chains

variable {fs : FileSystem} {chain : List String} {place? : Option Path}
  {exposed? : Option (Path × IoError)} {refusal? : Option IoError}

/-- A message without a path may stand above others that do not repeat its end. -/
theorem Laid.cons {message : String} (h : Laid fs chain place? exposed? none)
    (hm : message ∈ plain) (hs : ∀ cause ∈ chain.head?, ¬ cause.toList <:+ message.toList) :
    Laid fs (message :: chain) place? exposed? none := by
  have hnot {messages : List String} (hempty : "" ∉ messages) : "" ∉ message :: messages :=
    fun hmem => (List.mem_cons.1 hmem).elim (fun he => plain_ne_empty hm he.symm) hempty
  have hcut : ∀ cause ∈ chain.head?, ¬ Cut message.toList cause.toList :=
    fun cause hc => Console.not_cut (plain_firm hm) (hs cause hc)
  cases h with
  | enclosed hu hempty hplace =>
      refine .enclosed (hu.cons hcut) (hnot hempty) fun path hp => ?_
      obtain ⟨m, hmem, hincludes⟩ := hplace path hp
      exact ⟨m, List.mem_cons_of_mem _ hmem, hincludes⟩
  | exposed front path hl hc hempty hu =>
      refine .exposed (message :: front) path hl hc (hnot hempty) (hu.cons fun cause hcause => ?_)
      exact hcut cause (by cases front <;> exact hcause)

theorem Laid.single {lead : String} {path : Path} {cause : IoError} (hl : lead ∈ leads)
    (hc : cause ∈ ofFiles) :
    Laid fs [lead ++ " " ++ fs.describe path, cause.message] (some path) (some (path, cause))
      none :=
  .exposed [] path hl hc List.not_mem_nil (.single _)

theorem FileError.laid {e : FileError} (h : e.exposed.2 ∈ ofFiles) :
    Laid fs (e.chain fs) (some e.exposed.1) (some e.exposed) none := by
  cases e with
  | «open» path cause => exact Laid.single (show "Failed to open" ∈ leads by decide) h
  | read path cause => exact Laid.single (show "Failed to read" ∈ leads by decide) h

theorem file_not_suffix (e : FileError) :
    ∀ m ∈ (e.chain fs).head?, ¬ m.toList <:+ "Failed to fingerprint a file".toList := by
  have hparts : ∀ lead ∈ ["Failed to open", "Failed to read"],
      ¬ lead.toList <:+: "Failed to fingerprint a file".toList := by
    simp only [List.forall_mem_cons, String.reduceToList]
    decide
  obtain ⟨lead, hlead, text, hchain⟩ : ∃ lead ∈ ["Failed to open", "Failed to read"], ∃ text,
      (e.chain fs).head? = some (lead ++ " " ++ text) := by
    cases e with
    | «open» path cause => exact ⟨"Failed to open", by decide, fs.describe path, rfl⟩
    | read path cause => exact ⟨"Failed to read", by decide, fs.describe path, rfl⟩
  intro m hm hs
  rw [hchain] at hm
  obtain rfl := Option.some.inj hm
  exact hparts lead hlead ((lead_isPrefix lead text).isInfix.trans hs.isInfix)

variable (fs) in
/-- The first message of a scan's error begins with one of two capitals. -/
theorem ScanError.message_begins (e : ScanError) :
    ∃ x ∈ ['F', 'T'], [x] <+: (e.message fs).toList := by
  have hfront (lead text : String) {x : Char} (h : [x] <+: lead.toList) :
      [x] <+: (lead ++ text).toList := by
    rw [String.toList_append]
    exact h.trans (List.prefix_append _ _)
  cases e with
  | root path cause =>
      exact ⟨'F', by decide, hfront "Failed to access the root directory " _ (by simp)⟩
  | list path cause => exact ⟨'F', by decide, hfront "Failed to list directory " _ (by simp)⟩
  | rootNotDirectory path =>
      exact ⟨'T', by decide, hfront _ _ (hfront "The root " (fs.describe path) (by simp))⟩
  | file cause =>
      have hfile : ['F'] <+: "Failed to fingerprint a file".toList := by simp
      exact ⟨'F', by decide, hfile⟩

theorem ScanError.laid {e : ScanError} (h : Scan.OfFiles e) :
    Laid fs (e.chain fs) (some e.place) e.exposed? none := by
  cases e with
  | root path cause =>
      exact Laid.single (show "Failed to access the root directory" ∈ leads by decide) (h _ rfl)
  | list path cause =>
      exact Laid.single (show "Failed to list directory" ∈ leads by decide) (h _ rfl)
  | rootNotDirectory path =>
      refine .enclosed (.single _) (fun hempty => ?_) fun p hp => ?_
      · obtain ⟨x, -, hx⟩ := (rootNotDirectory path).message_begins fs
        rw [← List.mem_singleton.1 hempty] at hx
        cases List.prefix_nil.1 hx
      · obtain rfl := Option.some.inj hp
        exact ⟨_, List.mem_cons_self, "The root ", " is not a directory", rfl⟩
  | file cause =>
      have hm : "Failed to fingerprint a file" ∈ plain := List.mem_cons_self
      exact (FileError.laid (h _ rfl)).cons hm (file_not_suffix cause)

theorem CompareError.message_plain (e : CompareError) : e.message ∈ plain := by
  cases e <;> simp [message, plain]

theorem scan_not_suffix {e : CompareError} {cause : ScanError} (h : e.scan? = some cause) :
    ∀ m ∈ (cause.chain fs).head?, ¬ m.toList <:+ e.message.toList := by
  let critical : List String := ["Critical failure encountered while scanning the source tree",
    "Critical failure encountered while scanning the destination tree"]
  have hcapitals : ∀ message ∈ critical, ∀ x ∈ ['F', 'T'], x ∉ message.toList := by
    simp only [critical, List.forall_mem_cons, String.reduceToList]
    simp
  have hm : e.message ∈ critical := by
    cases e with
    | source cause => exact List.mem_cons_self
    | dest cause => exact List.mem_cons_of_mem _ List.mem_cons_self
    | output cause => cases h
  intro m hhead hs
  obtain rfl := Option.some.inj hhead
  obtain ⟨x, hx, hbegins⟩ := cause.message_begins fs
  exact hcapitals _ hm x hx (hs.subset (hbegins.subset List.mem_cons_self))

section Refused

variable {cause : IoError}

theorem refusal_firm : ∀ last ∈ (CompareError.output cause).message.toList.getLast?,
    ¬ Console.Loose last :=
  plain_firm (CompareError.output cause).message_plain

/-- What the fixed message of a refused report ends with does not end with a full stop. -/
theorem refusal_ends (h : cause.message.toList <:+ (CompareError.output cause).message.toList) :
    '.' ∉ cause.message.toList.getLast? := by
  have hmessage : '.' ∉ (CompareError.output cause).message.toList := by
    simp [CompareError.message]
  exact fun hlast => hmessage (h.subset (List.mem_of_getLast? hlast))

theorem report_of_not_suffix
    (h : ¬ cause.message.toList <:+ (CompareError.output cause).message.toList) :
    Console.report [(CompareError.output cause).message, cause.message] =
      Console.body [(CompareError.output cause).message, cause.message] := by
  refine Console.report_of_uncut (.cons (.single _) fun c hc => ?_) fun hempty => ?_
  · obtain rfl := Option.some.inj hc
    exact Console.not_cut refusal_firm h
  · rcases List.mem_pair.1 hempty with he | he
    · exact plain_ne_empty (CompareError.output cause).message_plain he.symm
    · rw [← he] at h
      exact h List.nil_suffix

/-- A sink's message that reads like the end of the message above it costs that end, or is
itself not shown if it is empty. -/
theorem shortened_of_suffix
    (h : cause.message.toList <:+ (CompareError.output cause).message.toList) :
    Shortened (CompareError.output cause).message cause.message
      (Console.report [(CompareError.output cause).message, cause.message]) := by
  by_cases hempty : cause.message = ""
  · rw [hempty]
    exact Console.shortened_of_empty
      (plain_ne_empty (CompareError.output cause).message_plain) refusal_firm
  · have hne : cause.message.toList ≠ [] := mt String.toList_eq_nil_iff.1 hempty
    exact Console.shortened_of_cut hempty (.inl ⟨hne, h⟩)

end Refused

theorem run_laid {source dest : Path} {style : Style} {colors : Bool} {sink : Sink}
    {e : CompareError} (h : (Report.run fs source dest style colors sink).result = .error e) :
    Laid fs (e.chain fs) (e.scan?.map (·.place)) (e.scan?.bind (·.exposed?)) e.refusal? := by
  cases hs : (Snapshot.scan fs source).result with
  | error cause =>
      rw [Report.run_of_source_error hs] at h
      obtain rfl := Except.error.inj h
      exact (ScanError.laid (Scan.scan_fails fs source cause hs)).cons
        (CompareError.message_plain _) (scan_not_suffix rfl)
  | ok s =>
      cases hd : (Snapshot.scan fs dest).result with
      | error cause =>
          rw [Report.run_of_dest_error hs hd] at h
          obtain rfl := Except.error.inj h
          exact (ScanError.laid (Scan.scan_fails fs dest cause hd)).cons
            (CompareError.message_plain _) (scan_not_suffix rfl)
      | ok d =>
          rw [Report.run_of_scans hs hd] at h
          cases hw : ((Report.compare s d).writeTo style colors sink).2 with
          | error cause =>
              rw [hw] at h
              obtain rfl := Except.error.inj h
              exact .refused cause
          | ok written =>
              rw [hw] at h
              cases h

theorem Failure.laid (h : Failure fs chain place? exposed? refusal?) :
    Laid fs chain place? exposed? refusal? := by
  cases h with
  | scan h => exact ScanError.laid (Scan.scan_fails fs _ _ h)
  | read h => exact FileError.laid (Record.read_fails fs _ _ _ h)
  | run h => exact run_laid h

end Chains

/-- A file system that holds an empty directory alone. -/
def bare : FileSystem where
  top := .directory .all []
  workingDirectory := ⟨[], []⟩
  privileged := false
  distinct := by simp [Node.Distinct, Entries.AllDistinct]

/-- What the console shows of a failure. Every error has its message in full, outermost
first, exactly if the path that failed does not stand at the end of a message or is not
clipped there, and the sink's message, if it was the sink that failed, is no end of the
message above it. A clipped path is still in the chain, but its line is marked and shows
only the front of the path; no other line loses anything. -/
theorem failure_reported (fs : FileSystem) {chain : List String} {place? : Option Path}
    {exposed? : Option (Path × IoError)} {refusal? : Option IoError}
    (h : Failure fs chain place? exposed? refusal?) :
    (Console.report chain = Console.body chain ↔
      (∀ x ∈ exposed?, ¬ Clipped (fs.describe x.1) x.2.message) ∧
        ∀ cause ∈ refusal?, ¬ cause.message.toList <:+ (CompareError.output cause).message.toList) ∧
    (∀ message ∈ chain, Includes (Console.body chain) message) ∧
    (∀ path ∈ place?, Includes (Console.body chain) (fs.describe path)) ∧
    (∀ x ∈ exposed?, place? = some x.1 ∧ (Clipped (fs.describe x.1) x.2.message →
      ∃ front, ∃ lead ∈ leads, ∃ kept lost, kept ++ lost = " " ++ fs.describe x.1 ∧ lost ≠ "" ∧
        chain = front ++ [lead ++ kept ++ lost, x.2.message] ∧
        Console.report chain =
          Console.body (front ++ [lead ++ kept ++ " *", x.2.message]) ++ Console.note true)) ∧
    ∀ cause ∈ refusal?, exposed? = none ∧
      chain = [(CompareError.output cause).message, cause.message] ∧
      (cause.message.toList <:+ (CompareError.output cause).message.toList →
        Shortened (CompareError.output cause).message cause.message (Console.report chain)) := by
  cases h.laid with
  | enclosed hu hne hplace =>
      refine ⟨iff_of_true (Console.report_of_uncut hu hne) ⟨nofun, nofun⟩,
        fun _ => Console.body_includes, fun path hp => ?_, nofun, nofun⟩
      obtain ⟨message, hm, hincludes⟩ := hplace path hp
      exact (Console.body_includes hm).trans hincludes
  | @exposed front lead path cause hl hc hne hu =>
      refine ⟨⟨fun hreport => ⟨fun x hx hclip => ?_, nofun⟩, fun hx => ?_⟩,
        fun _ => Console.body_includes, fun p hp => ?_, fun x hx => ?_, nofun⟩
      · obtain rfl := Option.some.inj hx
        obtain ⟨kept, lost, -, -, hnoted⟩ := report_of_clipped hl hc hne hu hclip
        rw [hnoted] at hreport
        exact Console.body_ne_noted (message_ends hc) _ _ _ true hreport.symm
      · exact report_of_not_clipped hl hc hne hu (hx.1 (path, cause) rfl)
      · obtain rfl := Option.some.inj hp
        have hm : lead ++ " " ++ fs.describe path ∈
            front ++ [lead ++ " " ++ fs.describe path, cause.message] :=
          List.mem_append_right _ List.mem_cons_self
        exact (Console.body_includes hm).trans ⟨lead ++ " ", "", String.append_empty.symm⟩
      · obtain rfl := Option.some.inj hx
        refine ⟨rfl, fun hclip => ?_⟩
        obtain ⟨kept, lost, hsplit, hlost, hreport⟩ := report_of_clipped hl hc hne hu hclip
        refine ⟨front, lead, hl, kept, lost, hsplit, hlost, ?_, hreport⟩
        have hmessage : lead ++ kept ++ lost = lead ++ " " ++ fs.describe path := by
          rw [String.append_assoc, hsplit, ← String.append_assoc]
        rw [hmessage]
  | refused cause =>
      refine ⟨⟨fun hreport => ⟨nofun, fun c hc hs => ?_⟩, fun hx => ?_⟩,
        fun _ => Console.body_includes, nofun, nofun, fun c hc => ?_⟩
      · obtain rfl := Option.some.inj hc
        exact (shortened_of_suffix hs).ne_body (refusal_ends hs) hreport
      · exact report_of_not_suffix (hx.2 cause rfl)
      · obtain rfl := Option.some.inj hc
        exact ⟨rfl, rfl, shortened_of_suffix⟩

/-- A root that does not exist is named in full, if its name has an ordinary end. -/
theorem failure_reported_missing :
    let root : Path := ⟨[slash, 0x61]⟩
    let e : ScanError := .root root .notFound
    Failure bare (e.chain bare) (some root) (some (root, .notFound)) none ∧
      Console.report (e.chain bare) = Console.body (e.chain bare) ∧
      Includes (Console.report (e.chain bare)) "/a" := by
  intro root e
  have hscan : (Snapshot.scan bare root).result = .error e := Scan.scan_result_of_check_error rfl
  have hfails : Failure bare (e.chain bare) (some root) (some (root, .notFound)) none :=
    .scan hscan
  obtain ⟨hwhole, -, hplace, -⟩ := failure_reported bare hfails
  have hbest : bare.bestEffort root = .ofString "/a" := by decide
  have hdescribe : bare.describe root = "/a" := by
    rw [FileSystem.describe, hbest]
    exact Utf8.lossy_encode "/a"
  have hmessage : IoError.notFound.message = "No such file or directory (os error 2)" := rfl
  have hshort : ¬ Clipped "/a" "No such file or directory (os error 2)" := by
    rintro (he | hcut)
    · exact absurd he (by decide)
    · refine Console.not_cut ?_ ?_ hcut
      · simp
        decide
      · simp only [String.reduceToList]
        decide
  have hreport : Console.report (e.chain bare) = Console.body (e.chain bare) := by
    refine hwhole.2 ⟨fun x hx => ?_, fun cause hc => ?_⟩
    · obtain rfl := Option.some.inj hx
      rw [hdescribe, hmessage]
      exact hshort
    · cases hc
  refine ⟨hfails, hreport, ?_⟩
  rw [hreport, ← hdescribe]
  exact hplace root rfl

/-- A root that does not exist and ends with a colon: the report does not show the colon. -/
theorem report_clips_colon :
    let root : Path := ⟨[slash, 0x61, 0x3a]⟩
    let e : ScanError := .root root .notFound
    (Snapshot.scan bare root).result = .error e ∧
      e.chain bare = ["Failed to access the root directory /a:",
        "No such file or directory (os error 2)"] ∧
      Console.report (e.chain bare) = Console.body ["Failed to access the root directory /a *",
        "No such file or directory (os error 2)"] ++ Console.note true ∧
      Console.report (e.chain bare) ≠ Console.body (e.chain bare) := by
  intro root e
  have hbest : bare.bestEffort root = .ofString "/a:" := by decide
  have hdescribe : bare.describe root = "/a:" := by
    rw [FileSystem.describe, hbest]
    exact Utf8.lossy_encode "/a:"
  have hchain : e.chain bare = ["Failed to access the root directory /a:",
      "No such file or directory (os error 2)"] := by
    change ["Failed to access the root directory " ++ bare.describe root, _] = _
    rw [hdescribe]
    rfl
  have hclean : Console.clean "Failed to access the root directory /a:".toList
      "No such file or directory (os error 2)".toList =
        "Failed to access the root directory /a".toList := by
    simp only [String.reduceToList]
    decide
  have hcut : Cut "Failed to access the root directory /a:".toList
      "No such file or directory (os error 2)".toList := .inr ⟨':', by simp, .inl rfl⟩
  have hreport : Console.report (e.chain bare) =
      Console.body ["Failed to access the root directory /a *",
        "No such file or directory (os error 2)"] ++ Console.note true := by
    have hcleaned := Console.report_of_cut (.single _) List.not_mem_nil (by decide) hcut
      (by rw [hclean]; simp)
    rw [hclean] at hcleaned
    rw [hchain]
    exact hcleaned
  refine ⟨Scan.scan_result_of_check_error rfl, hchain, hreport, fun hwhole => ?_⟩
  rw [hreport, hchain] at hwhole
  exact Console.body_ne_noted (by simp) [] _ _ true hwhole.symm

end TreeCompare
