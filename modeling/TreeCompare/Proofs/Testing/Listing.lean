import TreeCompare.Proofs.Text.Decoding
import TreeCompare.Testing.Listing

/-!
# Listings are read back

A rendered listing gives back its names, whatever the ends of its lines are: a line
ends in the suffix, never in a carriage return, so both ends can be told from the name.
Nothing behind the first empty line is read.
-/
namespace TreeCompare.Listing

/-- A character that does not end a line belongs to the line that is read after it. -/
theorem lines_cons {c : Char} {text line : List Char} {more : List (List Char)} (hc : c ≠ '\n')
    (hend : c = '\r' → text.head? ≠ some '\n') (h : lines text = line :: more) :
    lines (c :: text) = (c :: line) :: more := by
  rw [lines]
  · rw [h]
  · exact hc
  · rintro rest rfl rfl
    exact hend rfl rfl

theorem lines_ending (e : Ending) (rest : List Char) :
    lines (e.chars ++ rest) = [] :: lines rest := by
  cases e with
  | lineFeed => exact lines.eq_2 rest
  | carriageReturn => exact lines.eq_3 rest

/-- A line is read up to its end, unless its last character could be a part of this end. -/
theorem lines_append {line : List Char} (hfeed : '\n' ∉ line) {e : Ending}
    (hlast : e = .lineFeed → line.getLast? ≠ some '\r') (rest : List Char) :
    lines (line ++ (e.chars ++ rest)) = line :: lines rest := by
  induction line with
  | nil => exact lines_ending e rest
  | cons c line ih =>
      obtain ⟨hc, hline⟩ := not_or.1 (mt List.mem_cons.2 hfeed)
      cases line with
      | nil =>
          refine lines_cons (Ne.symm hc) ?_ (lines_ending e rest)
          rintro rfl
          cases e with
          | lineFeed => exact absurd rfl (hlast rfl)
          | carriageReturn => simp [Ending.chars]
      | cons d line =>
          refine lines_cons (Ne.symm hc) (fun _ hd => ?_) (ih hline ?_)
          · exact hline (List.mem_cons.2 (.inl (Option.some.inj hd).symm))
          · simpa only [List.getLast?_cons_cons] using hlast

theorem nameOf_append_suffix (name : List Char) : nameOf (name ++ suffix) = name := by
  rw [nameOf, if_pos (List.isSuffixOf_iff_suffix.2 (List.suffix_append _ _)), List.length_append,
    Nat.add_sub_cancel, List.take_left]

theorem feed_notMem_entry {name : List Char} (hname : '\n' ∉ name) : '\n' ∉ name ++ suffix := by
  intro hm
  rcases List.mem_append.1 hm with hm | hm
  · exact hname hm
  · exact absurd hm (by decide)

theorem entry_ne_nil (name : List Char) : name ++ suffix ≠ [] :=
  List.append_ne_nil_of_right_ne_nil name (List.cons_ne_nil _ _)

/-- One line of a listing gives its name, and the rest is read on its own. -/
theorem parseChars_entry {name : List Char} (hname : '\n' ∉ name) (e : Ending)
    (rest : List Char) :
    parseChars (name ++ suffix ++ (e.chars ++ rest)) = name :: parseChars rest := by
  have hlast : (name ++ suffix).getLast? ≠ some '\r' := by
    have hsuffix : suffix.getLast? = some 't' := by decide
    rw [List.getLast?_append, hsuffix, Option.some_or]
    decide
  have hnonempty := List.isEmpty_eq_false_iff.2 (entry_ne_nil name)
  rw [parseChars, lines_append (feed_notMem_entry hname) (fun _ => hlast), List.takeWhile_cons,
    hnonempty]
  exact congrArg₂ List.cons (nameOf_append_suffix name) rfl

theorem parseChars_render_append {tests : List (List Char × Ending)}
    (hnames : ∀ t ∈ tests, '\n' ∉ t.1) (rest : List Char) :
    parseChars (render tests ++ rest) = tests.map (·.1) ++ parseChars rest := by
  induction tests with
  | nil => rfl
  | cons t tests ih =>
      obtain ⟨hname, hrest⟩ := List.forall_mem_cons.1 hnames
      rw [render, List.flatMap_cons, List.append_assoc, List.append_assoc,
        parseChars_entry hname, List.map_cons, List.cons_append]
      exact congrArg (t.1 :: ·) (ih hrest)

/-- An empty line ends a listing. -/
theorem parseChars_ending (e : Ending) (rest : List Char) : parseChars (e.chars ++ rest) = [] := by
  rw [parseChars, lines_ending]
  rfl

def Ending.text (e : Ending) : String := String.ofList e.chars

/-- The listing of tests whose lines end in these ways. -/
def listed (tests : List (String × Ending)) : String :=
  String.join (tests.map fun t => t.1 ++ ": test" ++ t.2.text)

theorem toList_listed (tests : List (String × Ending)) :
    (listed tests).toList = render (tests.map fun t => (t.1.toList, t.2)) := by
  have hline (t : String × Ending) :
      (t.1 ++ ": test" ++ t.2.text).toList = t.1.toList ++ suffix ++ t.2.chars := by
    simp only [String.toList_append, Ending.text, String.toList_ofList]
    rfl
  rw [listed, String.toList_join, render, List.flatMap_map, List.flatMap_map]
  simp only [hline]

/-- A listing is read as its names and what the rest behind it gives. -/
theorem parse_listed_append {tests : List (String × Ending)}
    (hnames : ∀ t ∈ tests, '\n' ∉ t.1.toList) (rest : String) :
    parse (listed tests ++ rest) = tests.map (·.1) ++ parse rest := by
  have hchars : ∀ t ∈ tests.map fun t => (t.1.toList, t.2), '\n' ∉ t.1 :=
    List.forall_mem_map.2 hnames
  rw [parse, String.toList_append, toList_listed, parseChars_render_append hchars, parse,
    List.map_append, List.map_map, List.map_map]
  simp [Function.comp_def]

theorem parse_ending (e : Ending) (rest : String) : parse (e.text ++ rest) = [] := by
  rw [parse, String.toList_append, Ending.text, String.toList_ofList, parseChars_ending,
    List.map_nil]

/-- A listing for names with every line ended by a line feed. -/
def ofNames (names : List String) : String := String.join (names.map (· ++ ": test\n"))

theorem ofNames_eq_listed (names : List String) :
    ofNames names = listed (names.map fun name => (name, .lineFeed)) := by
  have hline (name : String) : name ++ ": test\n" = name ++ ": test" ++ Ending.lineFeed.text := by
    rw [String.append_assoc]
    rfl
  simp only [ofNames, listed, hline, List.map_map, Function.comp_def]

/-- The names are read from the printed bytes, whatever bytes follow the empty line. -/
theorem parse_ofNames {names : List String} (hnames : ∀ name ∈ names, '\n' ∉ name.toList)
    (garbage : List UInt8) :
    parse (Utf8.lossy (Utf8.encode (ofNames names ++ "\n") ++ garbage)) = names := by
  have htests : ∀ t ∈ names.map fun name => (name, Ending.lineFeed), '\n' ∉ t.1.toList :=
    List.forall_mem_map.2 hnames
  have hblank : parse ("\n" ++ Utf8.lossy garbage) = [] := parse_ending .lineFeed _
  rw [Utf8.lossy_encode_append, String.append_assoc, ofNames_eq_listed,
    parse_listed_append htests, hblank, List.append_nil, List.map_map]
  exact List.map_id names

end TreeCompare.Listing
