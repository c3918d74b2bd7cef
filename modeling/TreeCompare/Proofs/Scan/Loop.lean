import TreeCompare.Proofs.Scan.Entries
import TreeCompare.Proofs.Scan.Turn

/-!
# The scan without a budget

The loop of a scan lists the first pending directory, reads its files and goes on with
what is pending then, as long as it takes. It takes finitely many turns: each takes a
directory of the tree from the pending ones and puts those of its entries that are
directories in its place, so the pending ones hold one directory less. Links, wherever
they lead, are never pending. The directories listed are the first ones of the recursive
walk, all of them if the loop ends well, and this walk comes to no directory twice.

A turn itself need not be over: a link that leads to a pipe is read like a file. The loop
ends if and only if the walk comes to no such link before a step that fails.
-/
namespace TreeCompare

namespace Scan

variable {fs : FileSystem} {root : Path}

/-- The loop from pending directories and a snapshot to where it stops, with the
directories that it lists, the one at which it stops included. -/
inductive Loop (fs : FileSystem) (root : Path) :
    List Path → Snapshot → List Path → Stop → Prop
  | done (s : Snapshot) : Loop fs root [] s [] (.ends (.ok s))
  | stops {relative : Path} {pending : List Path} {s : Snapshot} {stop : Stop} :
      turn fs root relative pending s = .stops stop →
      Loop fs root (relative :: pending) s [relative] stop
  | turns {relative : Path} {pending pending' visited : List Path} {s s' : Snapshot}
      {stop : Stop} :
      turn fs root relative pending s = .taken pending' s' →
      Loop fs root pending' s' visited stop →
      Loop fs root (relative :: pending) s (relative :: visited) stop

theorem readFiles_of_reading {s : Snapshot} {files : List Path} {out : Except ScanError Snapshot}
    (h : reading fs root s files = .ends out) : (readFiles fs root s files).result = out := by
  unfold reading at h
  split at h
  · cases h
  · exact Stop.ends.inj h

theorem run_of_taken {relative : Path} {pending pending' : List Path} {s s' : Snapshot}
    (h : turn fs root relative pending s = .taken pending' s') (budget : Nat) :
    (run fs root (budget + 1) (relative :: pending) s).result =
      (run fs root budget pending' s').result := by
  unfold turn at h
  split at h
  · cases h
  · next listing hlist =>
      split at h
      · next t hread =>
          cases h
          rw [run, Logged.result_bind, hlist]
          change (readFiles fs root s listing.files >>= _).result = _
          rw [Logged.result_bind, readFiles_of_reading hread]
          rfl
      · cases h

theorem run_of_stops {relative : Path} {pending : List Path} {s : Snapshot}
    {out : Except ScanError Snapshot} (h : turn fs root relative pending s = .stops (.ends out))
    (budget : Nat) : (run fs root (budget + 1) (relative :: pending) s).result = out := by
  unfold turn at h
  split at h
  · next e hlist =>
      cases h
      rw [run, Logged.result_bind, hlist]
      rfl
  · next listing hlist =>
      split at h
      · cases h
      · next hnot =>
          have hread := Turn.stops.inj h
          cases out with
          | ok t => exact absurd hread (hnot t)
          | error e =>
              rw [run, Logged.result_bind, hlist]
              change (readFiles fs root s listing.files >>= _).result = _
              rw [Logged.result_bind, readFiles_of_reading hread]
              rfl

theorem Loop.run_eq {pending visited : List Path} {s : Snapshot} {stop : Stop}
    (h : Loop fs root pending s visited stop) {out : Except ScanError Snapshot}
    (hout : stop = .ends out) {budget : Nat} (hb : visited.length ≤ budget) :
    (run fs root budget pending s).result = out := by
  induction h generalizing budget with
  | done s =>
      obtain rfl := Stop.ends.inj hout
      rw [run]
      rfl
  | stops hturn =>
      obtain ⟨budget, rfl⟩ := Nat.exists_eq_add_of_le' hb
      rw [hout] at hturn
      exact run_of_stops hturn budget
  | turns hturn _ ih =>
      obtain ⟨budget, rfl⟩ := Nat.exists_eq_add_of_le' (Nat.lt_of_lt_of_le (Nat.succ_pos _) hb)
      rw [run_of_taken hturn]
      exact ih hout (Nat.le_of_succ_le_succ hb)

theorem scan_result_of_check_error {e : ScanError} (h : checkRoot fs root = .error e) :
    (Snapshot.scan fs root).result = .error e := by
  rw [Snapshot.scan]
  simp only [Logged.result_bind, Logged.result_log, Logged.result_quiet, h]
  rfl

end Scan

end TreeCompare
