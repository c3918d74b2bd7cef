import TreeCompare.Proofs.Report.Verdicts
import TreeCompare.Proofs.Text.Decoding

/-!
# Written reports

How a report is cut into pieces never shows: a sink that is given all pieces in one
takes the same bytes, has the same room left and fails in the same way. So what a run
writes is the beginning of one rendering, as much of it as fits, and nothing at all if
a scan fails. The colored rendering is the plain one with each label set apart.
-/
namespace TreeCompare

namespace Sink

/-- Two pieces in a row are taken as one. -/
theorem writeAll_merge (s : Sink) (a b : List UInt8) (rest : List (List UInt8)) :
    s.writeAll (a :: b :: rest) = s.writeAll ((a ++ b) :: rest) := by
  obtain ⟨taken, limit, flushError⟩ := s
  cases limit with
  | none => simp [writeAll, write, take, List.reverseAux_eq]
  | some limit =>
      obtain ⟨room, error, final⟩ := limit
      by_cases ha : a.length ≤ room
      · by_cases hb : b.length ≤ room - a.length
        · have hab : a.length + b.length ≤ room := by omega
          have hleft : room - a.length - b.length = room - (a.length + b.length) := by omega
          simp [writeAll, write, take, List.reverseAux_eq, ha, hb, hab, hleft]
        · have hab : ¬ a.length + b.length ≤ room := by omega
          simp [writeAll, write, take, List.reverseAux_eq, ha, hb, hab, List.take_append,
            List.take_of_length_le ha]
      · have hab : ¬ a.length + b.length ≤ room := by omega
        have hroom : room - a.length = 0 := by omega
        simp [writeAll, write, take, ha, hab, List.take_append, hroom]

theorem writeAll_flatten (s : Sink) (pieces : List (List UInt8)) :
    s.writeAll pieces = s.writeAll [pieces.flatten] := by
  have hmerged (first : List UInt8) :
      s.writeAll (first :: pieces) = s.writeAll [first ++ pieces.flatten] := by
    induction pieces generalizing first with
    | nil => rw [List.flatten_nil, List.append_nil]
    | cons piece pieces ih =>
        rw [writeAll_merge, ih, List.flatten_cons, List.append_assoc]
  have hempty : s.writeAll ([] :: pieces) = s.writeAll pieces := by
    obtain ⟨taken, limit, flushError⟩ := s
    cases limit <;> simp [writeAll, write, take]
  rw [← hempty, hmerged, List.nil_append]

/-- Whether there is room for so many bytes. -/
def Fits (s : Sink) (bytes : List UInt8) : Prop :=
  ∀ limit, s.limit = some limit → bytes.length ≤ limit.room

/-- The bytes that there is room for. -/
def front (s : Sink) (bytes : List UInt8) : List UInt8 :=
  match s.limit with
  | none => bytes
  | some limit => bytes.take (min limit.room bytes.length)

theorem not_fits_iff {s : Sink} {bytes : List UInt8} :
    ¬ s.Fits bytes ↔ ∃ limit, s.limit = some limit ∧ limit.room < bytes.length := by
  unfold Fits
  push Not
  rfl

theorem front_of_fits {s : Sink} {bytes : List UInt8} (h : s.Fits bytes) :
    s.front bytes = bytes := by
  unfold front
  split
  · rfl
  · next limit hlimit => rw [Nat.min_eq_right (h limit hlimit), List.take_length]

theorem write_of_fits {s : Sink} {bytes : List UInt8} (h : s.Fits bytes) :
    (s.write bytes).1.written = s.written ++ bytes ∧
      (s.write bytes).1.flushError = s.flushError ∧ (s.write bytes).2 = .ok () := by
  unfold write
  split
  · exact ⟨written_take .., rfl, rfl⟩
  · next limit hlimit =>
      rw [if_pos (h limit hlimit)]
      exact ⟨written_take .., rfl, rfl⟩

theorem write_of_not_fits {s : Sink} {limit : Limit} (hlimit : s.limit = some limit)
    {bytes : List UInt8} (h : limit.room < bytes.length) :
    (s.write bytes).1.written = s.written ++ s.front bytes ∧
      (s.write bytes).2 = .error limit.error := by
  rw [write, front, hlimit]
  dsimp only
  rw [if_neg (Nat.not_le.2 h), Nat.min_eq_left (Nat.le_of_lt h)]
  exact ⟨written_take .., rfl⟩

/-- Pieces that fit together are all taken, and the sink is flushed. -/
theorem writeAll_of_fits {s : Sink} {pieces : List (List UInt8)} (h : s.Fits pieces.flatten) :
    (s.writeAll pieces).1.written = s.written ++ pieces.flatten ∧
      (s.writeAll pieces).2 = s.flush := by
  obtain ⟨hwritten, hflush, hok⟩ := write_of_fits h
  rw [writeAll_flatten, writeAll]
  rcases hw : s.write pieces.flatten with ⟨t, result⟩
  rw [hw] at hwritten hflush hok
  subst hok
  refine ⟨hwritten, ?_⟩
  change t.flush = s.flush
  rw [flush, flush, hflush]

/-- Pieces that do not fit together are taken up to the limit, and nothing is flushed. -/
theorem writeAll_of_not_fits {s : Sink} {limit : Limit} (hlimit : s.limit = some limit)
    {pieces : List (List UInt8)} (h : limit.room < pieces.flatten.length) :
    (s.writeAll pieces).1.written = s.written ++ s.front pieces.flatten ∧
      (s.writeAll pieces).2 = .error limit.error := by
  obtain ⟨hwritten, herror⟩ := write_of_not_fits hlimit h
  rw [writeAll_flatten, writeAll]
  rcases hw : s.write pieces.flatten with ⟨t, result⟩
  rw [hw] at hwritten herror
  subst herror
  exact ⟨hwritten, rfl⟩

theorem written_writeAll (s : Sink) (pieces : List (List UInt8)) :
    (s.writeAll pieces).1.written = s.written ++ s.front pieces.flatten := by
  by_cases h : s.Fits pieces.flatten
  · rw [(writeAll_of_fits h).1, front_of_fits h]
  · obtain ⟨limit, hlimit, hlt⟩ := not_fits_iff.1 h
    exact (writeAll_of_not_fits hlimit hlt).1

end Sink

namespace Report

/-- A report as text with its labels set in some way, everything else as it is. -/
def layout (label : Outcome → String) (r : Report) : String :=
  String.join (r.outcomes.map fun o => label o ++ ": " ++ o.detail ++ "\n") ++
    r.summary.text ++ "\n"

theorem render_eq_layout (style : Style) (colors : Bool) (r : Report) :
    r.render style colors = r.layout (Outcome.styledLabel style colors) := by
  apply String.toList_injective
  simp [render, pieces, layout, outcomePieces, String.toList_join, List.flatMap_assoc,
    List.flatMap_map]

theorem render_plain (colors : Bool) (r : Report) :
    r.render .plain colors = r.layout Outcome.label := by
  rw [render_eq_layout]
  rfl

theorem render_colors_off (r : Report) : r.render .colored false = r.layout Outcome.label := by
  rw [render_eq_layout]
  rfl

theorem render_colors_on (r : Report) :
    r.render .colored true =
      r.layout fun o => "\x1b[" ++ o.setting ++ "m" ++ o.label ++ "\x1b[0m" := by
  rw [render_eq_layout]
  rfl

/-- The bytes of a whole report. -/
def bytes (style : Style) (colors : Bool) (r : Report) : List UInt8 :=
  Utf8.encode (r.render style colors)

theorem writeTo_eq (r : Report) (style : Style) (colors : Bool) (sink : Sink) :
    r.writeTo style colors sink = sink.writeAll ((r.pieces style colors).map Utf8.encode) := rfl

theorem flatten_pieces (style : Style) (colors : Bool) (r : Report) :
    ((r.pieces style colors).map Utf8.encode).flatten = r.bytes style colors := by
  rw [bytes, render, Utf8.encode_join, List.flatMap_def]

/-- The event of a run that begins. -/
def started (source dest : Path) : Log.Event :=
  ⟨.debug, runTarget, "Diff configuration: " ++ configuration source dest⟩

/-- What a run says in the end about a report that it could write. -/
def remarks (r : Report) : Except IoError Unit → List Log.Event
  | .error _ => []
  | .ok _ =>
      if r.hasDifferences then [⟨.info, runTarget, "Source and destination trees differ"⟩] else []

section Run

variable {fs : FileSystem} {source dest : Path} {s d : Snapshot}

theorem ofLogged_mapError {σ ε ε' α : Type} {x : Logged ε α} {result : Except ε α}
    (h : x.result = result) (name : ε → ε') (t : σ) :
    Action.ofLogged (x.mapError name) t = ⟨x.events, t, result.mapError name⟩ := by
  rw [← h]
  rfl

/-- If the source cannot be scanned, nothing else happens. -/
theorem run_of_source_error {e : ScanError} (h : (Snapshot.scan fs source).result = .error e)
    (style : Style) (colors : Bool) (sink : Sink) :
    run fs source dest style colors sink =
      ⟨started source dest :: (Snapshot.scan fs source).events, sink, .error (.source e)⟩ := by
  unfold run
  refine Action.log_bind ?_ _ _ _
  exact Action.bind_of_error (ofLogged_mapError h CompareError.source sink)

theorem run_of_dest_error (hs : (Snapshot.scan fs source).result = .ok s) {e : ScanError}
    (h : (Snapshot.scan fs dest).result = .error e) (style : Style) (colors : Bool)
    (sink : Sink) :
    run fs source dest style colors sink =
      ⟨started source dest :: ((Snapshot.scan fs source).events ++ (Snapshot.scan fs dest).events),
        sink, .error (.dest e)⟩ := by
  unfold run
  refine Action.log_bind ?_ _ _ _
  refine Action.bind_of_ok (ofLogged_mapError hs CompareError.source sink) ?_
  exact Action.bind_of_error (ofLogged_mapError h CompareError.dest sink)

/-- The last part of a run: the report is written, and a difference is remarked on. -/
theorem conclude (r : Report) (style : Style) (colors : Bool) (sink : Sink) :
    (do
      (Action.ofStep (r.writeTo style colors)).mapError CompareError.output
      if r.hasDifferences then
        Action.log .info runTarget "Source and destination trees differ"
      return r : Action Sink CompareError Report) sink =
      ⟨r.remarks (r.writeTo style colors sink).2, (r.writeTo style colors sink).1,
        ((r.writeTo style colors sink).2.mapError .output).map fun _ => r⟩ := by
  rcases hw : r.writeTo style colors sink with ⟨t, written⟩
  have hwrite : Action.ofStep (r.writeTo style colors) sink = ⟨[], t, written⟩ := by
    rw [Action.ofStep, hw]
  have houtput := Action.mapError_of hwrite CompareError.output
  cases written with
  | error e => exact Action.bind_of_error houtput
  | ok u =>
      have hremark : (do
          if r.hasDifferences then
            Action.log .info runTarget "Source and destination trees differ"
          return r : Action Sink CompareError Report) t = ⟨r.remarks (.ok u), t, .ok r⟩ := by
        rw [remarks]
        split <;> rfl
      exact Action.bind_of_ok houtput hremark

/-- After two scans that end well all that is left to do is to write the report. -/
theorem run_of_scans (hs : (Snapshot.scan fs source).result = .ok s)
    (hd : (Snapshot.scan fs dest).result = .ok d) (style : Style) (colors : Bool) (sink : Sink) :
    let r := compare s d
    let written := r.writeTo style colors sink
    run fs source dest style colors sink =
      ⟨started source dest :: ((Snapshot.scan fs source).events ++
          ((Snapshot.scan fs dest).events ++ (r.event :: r.remarks written.2))),
        written.1, (written.2.mapError .output).map fun _ => r⟩ := by
  intro r written
  unfold run
  refine Action.log_bind ?_ _ _ _
  refine Action.bind_of_ok (ofLogged_mapError hs CompareError.source sink) ?_
  refine Action.bind_of_ok (ofLogged_mapError hd CompareError.dest sink) ?_
  exact Action.log_bind (conclude r style colors sink) _ _ _

/-- What a run leaves in its sink is the front of the rendered report. -/
theorem written_run (hs : (Snapshot.scan fs source).result = .ok s)
    (hd : (Snapshot.scan fs dest).result = .ok d) (style : Style) (colors : Bool) (sink : Sink) :
    (run fs source dest style colors sink).state.written =
      sink.written ++ sink.front ((compare s d).bytes style colors) := by
  rw [run_of_scans hs hd, writeTo_eq, Sink.written_writeAll, flatten_pieces]

theorem run_of_fits (hs : (Snapshot.scan fs source).result = .ok s)
    (hd : (Snapshot.scan fs dest).result = .ok d) {style : Style} {colors : Bool} {sink : Sink}
    (h : sink.Fits ((compare s d).bytes style colors)) :
    (run fs source dest style colors sink).result =
      (sink.flush.mapError .output).map fun _ => compare s d := by
  rw [← flatten_pieces] at h
  rw [run_result hs hd, writeTo_eq, (Sink.writeAll_of_fits h).2]

theorem run_of_not_fits (hs : (Snapshot.scan fs source).result = .ok s)
    (hd : (Snapshot.scan fs dest).result = .ok d) {style : Style} {colors : Bool} {sink : Sink}
    {limit : Limit} (hlimit : sink.limit = some limit)
    (h : limit.room < ((compare s d).bytes style colors).length) :
    (run fs source dest style colors sink).result = .error (.output limit.error) := by
  rw [← flatten_pieces] at h
  rw [run_result hs hd, writeTo_eq, (Sink.writeAll_of_not_fits hlimit h).2]
  rfl

end Run

/-- A run writes nothing before both trees have been scanned, and then the beginning of
the rendered report that there is room for. It ends well exactly if all of it has been
taken and the sink could be flushed. Colors change nothing but the labels. -/
theorem run_writes_front (fs : FileSystem) (source dest : Path) (style : Style) (colors : Bool)
    (sink : Sink) :
    (∀ e, (Snapshot.scan fs source).result = .error e →
      run fs source dest style colors sink =
        ⟨started source dest :: (Snapshot.scan fs source).events, sink, .error (.source e)⟩) ∧
    (∀ s e, (Snapshot.scan fs source).result = .ok s →
      (Snapshot.scan fs dest).result = .error e →
      run fs source dest style colors sink =
        ⟨started source dest ::
          ((Snapshot.scan fs source).events ++ (Snapshot.scan fs dest).events),
          sink, .error (.dest e)⟩) ∧
    (∀ s d, (Snapshot.scan fs source).result = .ok s → (Snapshot.scan fs dest).result = .ok d →
      let whole := (compare s d).bytes style colors
      let after := run fs source dest style colors sink
      after.state.written = sink.written ++ sink.front whole ∧
      (after.result = .ok (compare s d) ↔ sink.Fits whole ∧ sink.flush = .ok ()) ∧
      (∀ limit, sink.limit = some limit → limit.room < whole.length →
        after.result = .error (.output limit.error)) ∧
      (∀ e, sink.Fits whole → sink.flush = .error e → after.result = .error (.output e))) ∧
    (∀ r : Report,
      r.render .colored true =
        r.layout (fun o => "\x1b[" ++ o.setting ++ "m" ++ o.label ++ "\x1b[0m") ∧
      r.render .plain colors = r.layout Outcome.label ∧
      r.render .colored false = r.render .plain colors) := by
  refine ⟨fun e he => run_of_source_error he style colors sink,
    fun s e hs he => run_of_dest_error hs he style colors sink, fun s d hs hd => ?_, fun r =>
    ⟨render_colors_on r, render_plain colors r, by rw [render_colors_off, render_plain]⟩⟩
  refine ⟨written_run hs hd style colors sink, ?_, fun _ => run_of_not_fits hs hd,
    fun e hfits he => ?_⟩
  · by_cases hfits : sink.Fits ((compare s d).bytes style colors)
    · rw [run_of_fits hs hd hfits]
      cases hflush : sink.flush <;> simp [Except.mapError, Except.map, hfits]
    · obtain ⟨limit, hlimit, hlt⟩ := Sink.not_fits_iff.1 hfits
      rw [run_of_not_fits hs hd hlimit hlt]
      simp [hfits]
  · rw [run_of_fits hs hd hfits, he]
    rfl

/-- A sink that takes ten bytes and fails in its own way after that. -/
def narrow : Sink := ⟨[], some ⟨10, .custom "no room left", nofun⟩, some (.custom "flush refused")⟩

open Scan (sample) in
theorem run_writes_front_limited : ∃ s d, (Snapshot.scan sample ⟨[slash]⟩).result = .ok s ∧
    (Snapshot.scan sample ⟨[slash, 0x61]⟩).result = .ok d ∧
    let whole := (compare s d).bytes .colored true
    (run sample ⟨[slash]⟩ ⟨[slash, 0x61]⟩ .colored true narrow).state.written =
      whole.take (min 10 whole.length) := by
  obtain ⟨s, hs⟩ := Scan.scan_sample
  obtain ⟨d, hd⟩ := Scan.scan_sample_below
  obtain ⟨-, -, hscans, -⟩ :=
    run_writes_front sample ⟨[slash]⟩ ⟨[slash, 0x61]⟩ .colored true narrow
  obtain ⟨hwritten, -⟩ := hscans s d hs hd
  have hempty : narrow.written = [] := rfl
  have hfront (bytes : List UInt8) : narrow.front bytes = bytes.take (min 10 bytes.length) := rfl
  rw [hempty, List.nil_append, hfront] at hwritten
  exact ⟨s, d, hs, hd, hwritten⟩

end Report

end TreeCompare
