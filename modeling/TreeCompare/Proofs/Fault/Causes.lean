import TreeCompare.Proofs.Files.Errors
import TreeCompare.Report.Run

/-!
# Causes of failures

At the bottom of a failure is a system's error. Below a scan it is one of looking at files,
whichever directory or file it came from. Of the error below a report that could not be
written nothing is known: it is the sink's own.
-/
namespace TreeCompare

open IoError (ofFiles)

/-- The path that a message ends with, and the cause that is shown below it. -/
def FileError.exposed : FileError → Path × IoError
  | .open path cause | .read path cause => (path, cause)

def ScanError.exposed? : ScanError → Option (Path × IoError)
  | .root path cause | .list path cause => some (path, cause)
  | .rootNotDirectory _ => none
  | .file cause => some cause.exposed

/-- The root, the directory or the file that failed. -/
def ScanError.place : ScanError → Path
  | .root path _ | .rootNotDirectory path | .list path _ => path
  | .file cause => cause.exposed.1

theorem OnlyFails.foldlM_result {ε α β : Type} {sort : ε → Prop} {f : β → α → Logged ε β}
    (h : ∀ b a, OnlyFails sort (f b a).result) (as : List α) (b : β) :
    OnlyFails sort (as.foldlM f b).result := by
  induction as generalizing b with
  | nil => exact .ok b
  | cons a as ih =>
      rw [List.foldlM_cons, Logged.result_bind]
      exact (h b a).bind ih

section Looking

variable (fs : FileSystem) (root : Path)

theorem Record.read_fails (path : Path) :
    OnlyFails (·.exposed.2 ∈ ofFiles) (Record.read fs root path) := by
  let file := root.join path
  have hopen : OnlyFails (fun e : FileError => e.exposed.2 ∈ ofFiles)
      ((fs.open file).mapError (.open file)) := (fs.open_fails file).mapError fun _ h => h
  have hread (node : Node) : OnlyFails (fun e : FileError => e.exposed.2 ∈ ofFiles)
      (node.read.mapError (.read file)) := node.read_fails.mapError fun _ h => h
  exact hopen.bind fun node => (hread node).bind fun _ => .ok _

namespace Scan

/-- Whether a cause that a scan's error exposes is one of looking at files. -/
def OfFiles (e : ScanError) : Prop := ∀ x ∈ e.exposed?, x.2 ∈ ofFiles

theorem checkRoot_fails : OnlyFails OfFiles (checkRoot fs root) := by
  unfold checkRoot
  cases hk : fs.kind root with
  | error cause =>
      refine .error fun x hx => ?_
      obtain rfl := Option.some.inj hx
      exact fs.kind_fails root cause hk
  | ok k =>
      cases k with
      | directory => exact .ok ()
      | _ => exact .error nofun

theorem classify_fails (relative : Path) (listing : Listing) (entry : Name × Kind) :
    OnlyFails OfFiles (classify fs root relative listing entry).result := by
  obtain ⟨name, kind⟩ := entry
  cases kind with
  | link =>
      simp only [classify]
      split
      · exact .ok _
      · exact .ok _
  | _ => exact .ok _

theorem list_fails (relative : Path) : OnlyFails OfFiles (list fs root relative).result := by
  rw [list, Logged.result_bind, Logged.result_quiet]
  refine ((fs.list_fails (root.join relative)).mapError fun cause hc => ?_).bind fun entries =>
    OnlyFails.foldlM_result (classify_fails fs root relative) _ _
  intro x hx
  obtain rfl := Option.some.inj hx
  exact hc

theorem readFiles_fails (s : Snapshot) (files : List Path) :
    OnlyFails OfFiles (readFiles fs root s files).result := by
  induction files generalizing s with
  | nil => exact .ok s
  | cons path files ih =>
      rw [readFiles, Logged.result_bind, Logged.result_quiet]
      refine ((Record.read_fails fs root path).mapError fun cause hc => ?_).bind fun record =>
        ih (s.insert record)
      intro x hx
      obtain rfl := Option.some.inj hx
      exact hc

theorem run_fails (budget : Nat) (pending : List Path) (s : Snapshot) :
    OnlyFails OfFiles (run fs root budget pending s).result := by
  induction budget generalizing pending s with
  | zero => cases pending <;> exact .ok s
  | succ budget ih =>
      cases pending with
      | nil => exact .ok s
      | cons relative pending =>
          rw [run, Logged.result_bind]
          refine (list_fails fs root relative).bind fun listing => ?_
          rw [Logged.result_bind]
          exact (readFiles_fails fs root s listing.files).bind fun t => ih _ t

theorem scan_fails : OnlyFails OfFiles (Snapshot.scan fs root).result := by
  rw [Snapshot.scan]
  simp only [Logged.result_bind, Logged.result_log, Logged.result_quiet]
  exact (OnlyFails.ok ()).bind fun _ => (checkRoot_fails fs root).bind fun _ =>
    (run_fails fs root _ _ _).bind fun _ => .ok _

end Scan

end Looking

end TreeCompare
