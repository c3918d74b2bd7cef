import Mathlib.Algebra.BigOperators.Group.List.Basic
import TreeCompare.Proofs.Report.Line
import TreeCompare.Proofs.Report.Writing

/-!
# Lines of a written report

A plain report is the lines of its outcomes and the four lines of its summary, each
ended by a line feed. A quoted name holds no line feed and neither do fingerprints and
numbers, so only the name of a missing file, which is not quoted, can break its line.
-/
namespace TreeCompare

/-- A text that is exactly these lines, each of them ended by a line feed. -/
structure Lined (text : String) (lines : List String) : Prop where
  joined : text = String.join (lines.map (· ++ "\n"))
  unbroken : ∀ line ∈ lines, '\n' ∉ line.toList

namespace Lined

theorem count_join (lines : List String) :
    (String.join (lines.map (· ++ "\n"))).toList.count '\n' =
      lines.length + (lines.map fun line => line.toList.count '\n').sum := by
  rw [String.toList_join, List.flatMap_map]
  induction lines with
  | nil => rfl
  | cons line lines ih =>
      rw [List.flatMap_cons, List.count_append, ih, String.toList_append, List.count_append,
        List.map_cons, List.sum_cons, List.length_cons]
      have hfeed : "\n".toList.count '\n' = 1 := by decide
      omega

/-- The line feeds of a text that is made of lines are as many as the lines. -/
theorem count_eq {text : String} {lines : List String} (h : Lined text lines) :
    text.toList.count '\n' = lines.length := by
  have hnone : ∀ n ∈ lines.map fun line => line.toList.count '\n', n = 0 := by
    intro n hn
    obtain ⟨line, hline, rfl⟩ := List.mem_map.1 hn
    exact List.count_eq_zero.2 (h.unbroken line hline)
  rw [h.joined, count_join, List.sum_eq_zero hnone, Nat.add_zero]

end Lined

namespace Summary

def lines (s : Summary) : List String :=
  ["Source: " ++ Numeral.decimal s.sourceCount, "Dest: " ++ Numeral.decimal s.destCount,
    Numeral.decimal s.sourceBytes, Numeral.decimal s.destBytes]

theorem join_lines (s : Summary) : String.join (s.lines.map (· ++ "\n")) = s.text ++ "\n" := by
  apply String.toList_injective
  simp [lines, text]

theorem feed_not_mem_decimal (n : Nat) : '\n' ∉ (Numeral.decimal n).toList := by
  intro hm
  have hdigit := Numeral.isDigit_of_mem_decimal hm
  contradiction

theorem lines_unbroken (s : Summary) : ∀ line ∈ s.lines, '\n' ∉ line.toList := by
  simp [lines, feed_not_mem_decimal]

end Summary

namespace Outcome

theorem line_unbroken {o : Outcome} (ho : ∀ name, o ≠ .missing name) : '\n' ∉ o.line.toList := by
  intro hm
  have hprintable := printable_line ho _ hm
  contradiction

theorem count_line_missing (name : Path) :
    (missing name).line.toList.count '\n' = name.bytes.count 0x0a := by
  have hlabel : ("Not found in dest" ++ ": ").toList.count '\n' = 0 := by decide
  rw [line, label, detail, String.toList_append, List.count_append, hlabel, Nat.zero_add]
  exact Utf8.count_lossy name.bytes

/-- Only the name of a record that has no counterpart brings line feeds into a line. -/
theorem count_line_ofRecord (source : Record) (dest : Option Record) :
    (ofRecord source dest).line.toList.count '\n' =
      if dest.isNone then source.path.bytes.count 0x0a else 0 := by
  cases dest with
  | none => exact count_line_missing source.path
  | some dest =>
      rw [if_neg (by simp)]
      refine List.count_eq_zero.2 (line_unbroken fun name => ?_)
      rw [ofRecord]
      split <;> exact Outcome.noConfusion

end Outcome

namespace Report

/-- The lines that a report is written in. -/
def lines (r : Report) : List String := r.outcomes.map Outcome.line ++ r.summary.lines

theorem render_eq_join_lines (colors : Bool) (r : Report) :
    r.render .plain colors = String.join (r.lines.map (· ++ "\n")) := by
  rw [render_plain, layout, lines, List.map_append, List.map_map, String.join_append,
    Summary.join_lines, String.append_assoc]
  rfl

theorem sum_count_outcomes (source dest : Snapshot) :
    ((compare source dest).outcomes.map fun o => o.line.toList.count '\n').sum =
      ((source.records.filter fun s => (dest.get? s.path).isNone).map
        fun s => s.path.bytes.count 0x0a).sum := by
  rw [compare, List.map_map]
  induction source.records with
  | nil => rfl
  | cons s records ih =>
      rw [List.map_cons, List.sum_cons, ih, List.filter_cons, Function.comp_apply,
        Outcome.count_line_ofRecord]
      split
      · rw [List.map_cons, List.sum_cons]
      · rw [Nat.zero_add]

theorem length_lines_compare (source dest : Snapshot) :
    (compare source dest).lines.length = source.size + 4 := by
  rw [lines, List.length_append, List.length_map, compare, List.length_map]
  rfl

theorem count_render_compare (colors : Bool) (source dest : Snapshot) :
    ((compare source dest).render .plain colors).toList.count '\n' =
      source.size + 4 + ((source.records.filter fun s => (dest.get? s.path).isNone).map
        fun s => s.path.bytes.count 0x0a).sum := by
  have hsummary :
      ((compare source dest).summary.lines.map fun l => l.toList.count '\n').sum = 0 := by
    refine List.sum_eq_zero fun n hn => ?_
    obtain ⟨line, hline, rfl⟩ := List.mem_map.1 hn
    exact List.count_eq_zero.2 (Summary.lines_unbroken _ line hline)
  rw [render_eq_join_lines, Lined.count_join, length_lines_compare, lines, List.map_append,
    List.sum_append, hsummary, List.map_map, Nat.add_zero]
  exact congrArg _ (sum_count_outcomes source dest)

/-- The report consists of its lines exactly if no file that is missing from the
destination has a line feed in its name. -/
theorem lined_compare_iff (colors : Bool) (source dest : Snapshot) :
    Lined ((compare source dest).render .plain colors) (compare source dest).lines ↔
      ∀ s ∈ source.records, dest.get? s.path = none → 0x0a ∉ s.path.bytes := by
  constructor
  · intro h s hs hmissing
    have hline : (Outcome.missing s.path).line ∈ (compare source dest).lines := by
      refine List.mem_append_left _ (List.mem_map_of_mem (List.mem_map.2 ⟨s, hs, ?_⟩))
      rw [hmissing, Outcome.ofRecord]
    have hcount := List.count_eq_zero.2 (h.unbroken _ hline)
    rw [Outcome.count_line_missing] at hcount
    exact List.count_eq_zero.1 hcount
  · intro h
    refine ⟨render_eq_join_lines colors _, List.forall_mem_append.2 ⟨?_, Summary.lines_unbroken _⟩⟩
    intro line hline
    obtain ⟨o, ho, rfl⟩ := List.mem_map.1 hline
    obtain ⟨s, hs, rfl⟩ := List.mem_map.1 ho
    rw [← List.count_eq_zero, Outcome.count_line_ofRecord]
    split
    · next hmissing => exact List.count_eq_zero.2 (h s hs (Option.isNone_iff_eq_none.1 hmissing))
    · rfl

/-- A plain report is one line for each source record and the four lines of its summary,
except that a line feed in the bare name of a missing file breaks its line: only these
names can, and each line feed in them adds one line. -/
theorem compare_lines (source dest : Snapshot) (colors : Bool) :
    let r := compare source dest
    let text := r.render .plain colors
    let after := r.writeTo .plain colors .unlimited
    after.1.written = Utf8.encode text ∧ after.2 = .ok () ∧
    text = String.join (r.lines.map (· ++ "\n")) ∧
    r.lines.length = source.size + 4 ∧
    (∀ o ∈ r.outcomes, (∀ name, o ≠ .missing name) → '\n' ∉ o.line.toList) ∧
    (∀ line ∈ r.summary.lines, '\n' ∉ line.toList) ∧
    (Lined text r.lines ↔
      ∀ s ∈ source.records, dest.get? s.path = none → 0x0a ∉ s.path.bytes) ∧
    text.toList.count '\n' =
      source.size + 4 + ((source.records.filter fun s => (dest.get? s.path).isNone).map
        fun s => s.path.bytes.count 0x0a).sum := by
  intro r text after
  have hfits : Sink.unlimited.Fits ((r.pieces .plain colors).map Utf8.encode).flatten := by
    intro limit hlimit
    cases hlimit
  obtain ⟨hwritten, hresult⟩ := Sink.writeAll_of_fits hfits
  refine ⟨?_, hresult, render_eq_join_lines colors r, length_lines_compare source dest,
    fun o _ => Outcome.line_unbroken, Summary.lines_unbroken _,
    lined_compare_iff colors source dest, count_render_compare colors source dest⟩
  rw [flatten_pieces] at hwritten
  exact hwritten

/-- A line feed in a quoted name breaks no line. -/
theorem compare_lines_quoted :
    let tree := Snapshot.ofList [⟨⟨[0x61, 0x0a, 0x62]⟩, .ofContent [0x31, 0x32, 0x33]⟩]
    Lined ((compare tree tree).render .plain false) (compare tree tree).lines := by
  intro tree
  obtain ⟨-, -, -, -, -, -, hlined, -⟩ := compare_lines tree tree false
  refine hlined.2 fun s hs hmissing => ?_
  obtain rfl : s = ⟨⟨[0x61, 0x0a, 0x62]⟩, .ofContent [0x31, 0x32, 0x33]⟩ := List.mem_singleton.1 hs
  exact absurd hmissing (by decide)

/-- The name of a missing file with a line feed in it makes two lines out of one. -/
theorem compare_lines_line_feed :
    let source := Snapshot.ofList [⟨⟨[0x61, 0x0a, 0x62]⟩, .ofContent [0x31, 0x32, 0x33]⟩]
    ¬ Lined ((compare source .empty).render .plain false) (compare source .empty).lines := by
  intro source h
  have hcount := h.count_eq
  rw [count_render_compare, length_lines_compare] at hcount
  exact absurd hcount (by decide)

end Report

end TreeCompare
