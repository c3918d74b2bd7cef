import Mathlib.Data.List.Forall2
import Mathlib.Data.List.TakeWhile
import TreeCompare.Proofs.Testing.Listing

/-!
# Lines of a listing

Every text is lines in exactly one way: each but the last is ended, a carriage return
before a line feed belongs to the end, and only the last may be unended, if there is
anything on it. A listing is read line by line up to the first empty line, and each
line gives one name. So it gives back the names that were written to it, whatever the
ends of its lines are and whatever stands behind an empty line.
-/
namespace TreeCompare.Listing

/-- A text and its lines. -/
inductive Lines : List Char → List (List Char) → Prop
  | none : Lines [] []
  | unended {line : List Char} (hne : line ≠ []) (hfeed : '\n' ∉ line) : Lines line [line]
  | ended {line text : List Char} {more : List (List Char)} (hfeed : '\n' ∉ line) (e : Ending)
      (hlast : e = .lineFeed → line.getLast? ≠ some '\r') (h : Lines text more) :
      Lines (line ++ (e.chars ++ text)) (line :: more)

theorem lines_unended {line : List Char} (hne : line ≠ []) (hfeed : '\n' ∉ line) :
    lines line = [line] := by
  induction line with
  | nil => exact absurd rfl hne
  | cons c line ih =>
      obtain ⟨hc, hline⟩ := not_or.1 (mt List.mem_cons.2 hfeed)
      cases line with
      | nil =>
          rw [lines, lines]
          · exact Ne.symm hc
          · intro rest _ h
            cases h
      | cons d line =>
          refine lines_cons (Ne.symm hc) (fun _ hd => ?_) (ih (List.cons_ne_nil d line) hline)
          exact hline (List.mem_cons.2 (.inl (Option.some.inj hd).symm))

theorem Lines.eq_lines {text : List Char} {ls : List (List Char)} (h : Lines text ls) :
    ls = lines text := by
  induction h with
  | none => rfl
  | unended hne hfeed => exact (lines_unended hne hfeed).symm
  | ended hfeed e hlast _ ih => rw [lines_append hfeed hlast, ih]

/-- One more character in front makes the first line longer. -/
theorem Lines.cons {c : Char} {text line : List Char} {more : List (List Char)} (hc : c ≠ '\n')
    (hend : c = '\r' → text.head? ≠ some '\n') (h : Lines text (line :: more)) :
    Lines (c :: text) ((c :: line) :: more) := by
  cases h with
  | unended hne hfeed =>
      have hfeed' := mt List.mem_cons.1 (not_or.2 ⟨Ne.symm hc, hfeed⟩)
      exact .unended (List.cons_ne_nil c _) hfeed'
  | ended hfeed e hlast h =>
      have hfeed' := mt List.mem_cons.1 (not_or.2 ⟨Ne.symm hc, hfeed⟩)
      refine .ended hfeed' e (fun he => ?_) h
      subst he
      cases line with
      | nil =>
          intro hr
          exact hend (Option.some.inj hr) rfl
      | cons d line => simpa only [List.getLast?_cons_cons] using hlast rfl

theorem lines_spec (text : List Char) : Lines text (lines text) := by
  induction text using lines.induct with
  | case1 => exact .none
  | case2 rest ih =>
      rw [lines.eq_2]
      exact .ended List.not_mem_nil .lineFeed (fun _ => by simp) ih
  | case3 rest ih =>
      rw [lines.eq_3]
      exact .ended List.not_mem_nil .carriageReturn (fun he => by cases he) ih
  | case4 c rest hc hend hnone ih =>
      rw [hnone] at ih
      cases ih
      rw [lines_unended (List.cons_ne_nil c []) (by simpa using Ne.symm hc)]
      exact .unended (List.cons_ne_nil c []) (by simpa using Ne.symm hc)
  | case5 c rest hc hend line more hrest ih =>
      have hhead : c = '\r' → rest.head? ≠ some '\n' := by
        intro hr hfeed
        obtain ⟨tail, htail⟩ := List.head?_eq_some_iff.1 hfeed
        exact hend tail hr htail
      rw [lines_cons hc hhead hrest]
      exact Lines.cons hc hhead (hrest ▸ ih)

/-- A text has exactly one list of lines. -/
theorem lines_iff {text : List Char} {ls : List (List Char)} : Lines text ls ↔ ls = lines text := by
  constructor
  · exact Lines.eq_lines
  · rintro rfl
    exact lines_spec text

theorem Lines.feed_notMem {text : List Char} {ls : List (List Char)} (h : Lines text ls) :
    ∀ line ∈ ls, '\n' ∉ line := by
  induction h with
  | none => simp
  | unended _ hfeed => simpa using hfeed
  | ended hfeed _ _ _ ih => exact List.forall_mem_cons.2 ⟨hfeed, ih⟩

/-- The name on a line: what stands before a suffix, or the line if it has no suffix. -/
def NameOn (line name : List Char) : Prop :=
  line = name ++ suffix ∨ ¬ suffix <:+ line ∧ name = line

theorem nameOn_nameOf (line : List Char) : NameOn line (nameOf line) := by
  by_cases h : suffix <:+ line
  · obtain ⟨name, rfl⟩ := h
    rw [nameOf_append_suffix]
    exact .inl rfl
  · rw [nameOf, if_neg (mt List.isSuffixOf_iff_suffix.1 h)]
    exact .inr ⟨h, rfl⟩

theorem NameOn.feed_notMem {line name : List Char} (h : NameOn line name) (hfeed : '\n' ∉ line) :
    '\n' ∉ name := by
  obtain rfl | ⟨-, rfl⟩ := h
  · exact fun hm => hfeed (List.mem_append_left suffix hm)
  · exact hfeed

/-- The lines before the first empty one give a name each. -/
theorem parse_lines (text : String) : ∃ front back, lines text.toList = front ++ back ∧
    (∀ line ∈ front, line ≠ []) ∧ (∀ line, back.head? = some line → line = []) ∧
    parse text = front.map fun line => String.ofList (nameOf line) := by
  refine ⟨(lines text.toList).takeWhile (!·.isEmpty), (lines text.toList).dropWhile (!·.isEmpty),
    List.takeWhile_append_dropWhile.symm, fun line hline => ?_, fun line hline => ?_, ?_⟩
  · have hfull := List.mem_takeWhile_imp hline
    simpa using hfull
  · have hempty := List.head?_dropWhile_not (fun line => !line.isEmpty) (lines text.toList)
    rw [hline] at hempty
    simpa using hempty
  · rw [parse, parseChars, List.map_map]
    rfl

/-- The last line of a listing may be unended. -/
theorem parse_unended {name : String} (hname : '\n' ∉ name.toList) :
    parse (name ++ ": test") = [name] := by
  have hentry : (name ++ ": test").toList = name.toList ++ suffix := String.toList_append ..
  have hne := entry_ne_nil name.toList
  have hnonempty := List.isEmpty_eq_false_iff.2 hne
  rw [parse, hentry, parseChars, lines_unended hne (feed_notMem_entry hname), List.takeWhile_cons,
    hnonempty]
  simp [nameOf_append_suffix]

/-- A listing gives back its names, whether its lines end in line feeds or carriage
returns, its last line is unended, or any text stands behind an empty line. Every text
has one list of lines and gives one name for each of them up to the first empty line. -/
theorem parse_reads_names :
    (∀ tests : List (String × Ending), (∀ t ∈ tests, '\n' ∉ t.1.toList) →
      parse (listed tests) = tests.map (·.1) ∧
      (∀ last : String, '\n' ∉ last.toList →
        parse (listed tests ++ (last ++ ": test")) = tests.map (·.1) ++ [last]) ∧
      ∀ (e : Ending) (more : String), parse (listed tests ++ (e.text ++ more)) = tests.map (·.1)) ∧
    ∀ text : String, ∃ ls, (∀ ls', Lines text.toList ls' ↔ ls' = ls) ∧
      ∃ front back, ls = front ++ back ∧ (∀ line ∈ front, line ≠ []) ∧
        (∀ line, back.head? = some line → line = []) ∧
        List.Forall₂ (fun line name => NameOn line name.toList) front (parse text) ∧
        ∀ name ∈ parse text, '\n' ∉ name.toList := by
  constructor
  · intro tests hnames
    refine ⟨?_, fun last hlast => ?_, fun e more => ?_⟩
    · have hempty := parse_listed_append hnames ""
      rwa [String.append_empty, show parse "" = [] from rfl, List.append_nil] at hempty
    · rw [parse_listed_append hnames, parse_unended hlast]
    · rw [parse_listed_append hnames, parse_ending, List.append_nil]
  · intro text
    obtain ⟨front, back, hlines, hfront, hback, hnames⟩ := parse_lines text
    refine ⟨lines text.toList, fun ls => lines_iff, front, back, hlines, hfront, hback, ?_, ?_⟩
    · rw [hnames, List.forall₂_map_right_iff, List.forall₂_same]
      intro line _
      rw [String.toList_ofList]
      exact nameOn_nameOf line
    · rw [hnames, List.forall_mem_map]
      intro line hline
      rw [String.toList_ofList]
      apply (nameOn_nameOf line).feed_notMem
      apply (lines_spec text.toList).feed_notMem
      rw [hlines]
      exact List.mem_append_left back hline

/-- Names may be empty, hold a carriage return or look like a line of a listing. -/
theorem parse_reads_names_mixed :
    parse (listed [("a\r: test", .carriageReturn), ("", .lineFeed)] ++
      (Ending.carriageReturn.text ++ "c: test\n")) = ["a\r: test", ""] := by
  obtain ⟨hlisted, -⟩ := parse_reads_names
  obtain ⟨-, -, hbehind⟩ :=
    hlisted [("a\r: test", .carriageReturn), ("", .lineFeed)] (by decide)
  exact hbehind .carriageReturn "c: test\n"

end TreeCompare.Listing
