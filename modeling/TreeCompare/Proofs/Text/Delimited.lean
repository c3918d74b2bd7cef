import Mathlib.Data.List.Induction
import TreeCompare.Proofs.Text.Decoding
import TreeCompare.Proofs.Text.Quoted

/-!
# Quoted names keep to their quotes

A backslash escapes what follows it unless it is escaped itself, so a character behind
an odd number of backslashes is escaped. The written form of a piece leaves nothing
escaped behind it and holds the quote, if at all, right behind the backslash that it
begins with. Hence between the two quotes of a name every other one is escaped. Which
quote a name gets can be seen from its bytes.
-/
namespace TreeCompare.Quoted

open Numeral (hexDigits)

/-- Whether the last character is a backslash that escapes what comes after it. -/
def escapesNext (text : List Char) : Bool :=
  text.foldl (fun escaped c => c == '\\' && !escaped) false

theorem escapesNext_concat (text : List Char) (c : Char) :
    escapesNext (text ++ [c]) = (c == '\\' && !escapesNext text) := by
  simp [escapesNext]

theorem escapesNext_append {front : List Char} (h : escapesNext front = false)
    (back : List Char) : escapesNext (front ++ back) = escapesNext back := by
  rw [escapesNext, List.foldl_append]
  exact congrArg (fun start => back.foldl (fun escaped c => c == '\\' && !escaped) start) h

/-- A text escapes what comes after it if it ends with an odd number of backslashes. -/
theorem escapesNext_cases (text : List Char) :
    ∃ before count, text = before ++ List.replicate count '\\' ∧ before.getLast? ≠ some '\\' ∧
      (escapesNext text = true ↔ count % 2 = 1) := by
  induction text using List.reverseRecOn with
  | nil => exact ⟨[], 0, rfl, by simp, by simp [escapesNext]⟩
  | append_singleton text c ih =>
      rw [escapesNext_concat]
      by_cases hc : c = '\\'
      · obtain ⟨before, count, rfl, hlast, hiff⟩ := ih
        refine ⟨before, count + 1, ?_, hlast, ?_⟩
        · rw [hc, List.append_assoc, List.replicate_succ']
        · subst hc
          rw [beq_self_eq_true, Bool.true_and, Bool.not_eq_true', ← Bool.not_eq_true, hiff]
          omega
      · exact ⟨text ++ [c], 0, by simp, by simpa using hc, by simp [hc]⟩

theorem notMem_hexDigits {quote : Char} (hq : IsQuote quote) (width n : Nat) :
    quote ∉ hexDigits width n ∧ '\\' ∉ hexDigits width n := by
  have hdigits : ∀ d < 16, Nat.digitChar d ≠ '\'' ∧ Nat.digitChar d ≠ '"' ∧
      Nat.digitChar d ≠ '\\' := by decide
  constructor
  · intro hm
    obtain ⟨d, hd, rfl⟩ := Numeral.mem_hexDigits hm
    obtain ⟨hsingle, hdouble, -⟩ := hdigits d hd
    exact hq.elim hsingle hdouble
  · intro hm
    obtain ⟨d, hd, heq⟩ := Numeral.mem_hexDigits hm
    exact (hdigits d hd).2.2 heq.symm

theorem escapeCode_cases (code : Nat) : ∃ letter width,
    escapeCode code = '\\' :: letter :: hexDigits width code := by
  unfold escapeCode
  split_ifs
  · exact ⟨'x', 2, rfl⟩
  · exact ⟨'u', 4, rfl⟩
  · exact ⟨'U', 8, rfl⟩

/-- A piece is written as one character that needs no escape, or as a backslash, the
character that it escapes, and more characters that are neither quote nor backslash. -/
theorem written_cases {quote : Char} (hq : IsQuote quote) (p : Piece) :
    (∃ c, p.written quote = [c] ∧ c ≠ '\\' ∧ c ≠ quote) ∨
      ∃ c rest, p.written quote = '\\' :: c :: rest ∧ quote ∉ rest ∧ '\\' ∉ rest := by
  have hcode (code : Nat) :
      ∃ c rest, escapeCode code = '\\' :: c :: rest ∧ quote ∉ rest ∧ '\\' ∉ rest := by
    obtain ⟨letter, width, heq⟩ := escapeCode_cases code
    exact ⟨letter, _, heq, notMem_hexDigits hq width code⟩
  cases p with
  | stray byte => exact .inr (hcode _)
  | char c =>
      rw [Piece.written]
      split_ifs with h₁ h₂ h₃ h₄ h₅ h₆
      · exact .inr ⟨_, [], rfl, by simp, by simp⟩
      · exact .inr ⟨_, [], rfl, by simp, by simp⟩
      · exact .inr ⟨_, [], rfl, by simp, by simp⟩
      · exact .inr ⟨_, [], rfl, by simp, by simp⟩
      · exact .inr ⟨_, [], rfl, by simp, by simp⟩
      · exact .inl ⟨c, rfl, h₁, h₅⟩
      · exact .inr (hcode _)

theorem escapesNext_of_notMem {text : List Char} (h : '\\' ∉ text) :
    escapesNext text = false := by
  induction text using List.reverseRecOn with
  | nil => rfl
  | append_singleton text c ih =>
      have hc : c ≠ '\\' := fun heq => h (by simp [heq])
      rw [escapesNext_concat, beq_false_of_ne hc, Bool.false_and]

theorem escapesNext_written {quote : Char} (hq : IsQuote quote) (p : Piece) :
    escapesNext (p.written quote) = false := by
  obtain ⟨c, heq, hc, -⟩ | ⟨c, rest, heq, -, hrest⟩ := written_cases hq p
  · rw [heq]
    exact escapesNext_of_notMem (by simpa using Ne.symm hc)
  · have hpair : escapesNext ['\\', c] = false := by simp [escapesNext]
    rw [heq]
    exact (escapesNext_append hpair rest).trans (escapesNext_of_notMem hrest)

/-- The quote stands in a piece at most once, right behind the first backslash. -/
theorem escapesNext_of_written {quote : Char} (hq : IsQuote quote) {p : Piece}
    {front back : List Char} (h : p.written quote = front ++ quote :: back) :
    escapesNext front = true := by
  have hback : '\\' ≠ quote := by
    rintro rfl
    rcases hq with h | h <;> cases h
  obtain ⟨c, heq, -, hc⟩ | ⟨c, rest, heq, hrest, -⟩ := written_cases hq p
  · have hmem : quote ∈ [c] := by
      rw [← heq, h]
      simp
    exact absurd (List.mem_singleton.1 hmem).symm hc
  · rw [heq] at h
    cases front with
    | nil => exact absurd (List.cons.inj h).1 hback
    | cons x front =>
        obtain ⟨rfl, htail⟩ := List.cons.inj h
        cases front with
        | nil => rfl
        | cons y front =>
            obtain ⟨-, htail⟩ := List.cons.inj htail
            exact absurd (by rw [htail]; simp) hrest

/-- Among written pieces every quote is escaped. -/
theorem escapesNext_of_pieces {quote : Char} (hq : IsQuote quote) {ps : List Piece}
    {front back : List Char} (h : ps.flatMap (Piece.written quote) = front ++ quote :: back) :
    escapesNext front = true := by
  induction ps generalizing front with
  | nil => simp at h
  | cons p ps ih =>
      have hbehind := escapesNext_append (escapesNext_written hq p)
      rw [List.flatMap_cons] at h
      obtain ⟨more, rfl, hmore⟩ | ⟨more, hpiece, hmore⟩ := List.append_eq_append_iff.1 h
      · rw [hbehind]
        exact ih hmore
      · cases more with
        | nil =>
            rw [List.append_nil] at hpiece
            have hstart : escapesNext [] = true := ih hmore.symm
            cases hstart
        | cons c more =>
            obtain ⟨rfl, -⟩ := List.cons.inj hmore
            exact escapesNext_of_written hq hpiece

/-- A character of the ASCII range is a piece of a name exactly if its byte is in it. -/
theorem char_mem_pieces_iff {c : Char} {b : UInt8} (hc : c.toNat = b.toNat)
    (hb : b.toNat < 0x80) {name : List UInt8} : .char c ∈ pieces name ↔ b ∈ name := by
  have hpiece : Piece.char c ∈ pieces name ↔ .char c ∈ Utf8.chunks name := by
    rw [pieces, List.mem_flatMap]
    constructor
    · rintro ⟨chunk, hm, hp⟩
      cases chunk with
      | char d =>
          obtain rfl := Piece.char.inj (List.mem_singleton.1 hp)
          exact hm
      | broken bytes => simp [Piece.ofChunk] at hp
    · intro hm
      exact ⟨.char c, hm, List.mem_singleton_self _⟩
  rw [hpiece]
  constructor
  · intro hm
    have hval : c.val.toNat = b.toNat := hc
    rw [← Utf8.flatMap_chunks name]
    refine List.mem_flatMap.2 ⟨_, hm, ?_⟩
    simp only [Utf8.Chunk.bytes, String.utf8EncodeChar, hval]
    rw [if_pos (by omega), UInt8.ofNat_toNat]
    exact List.mem_singleton_self b
  · intro hm
    rw [← Utf8.flatMap_chunks name] at hm
    obtain ⟨chunk, hchunk, hbyte⟩ := List.mem_flatMap.1 hm
    cases chunk with
    | char d =>
        have hd := Utf8.toNat_of_mem_encodeChar hb hbyte
        obtain rfl : d = c := Char.toNat_inj.1 (hd.trans hc.symm)
        exact hchunk
    | broken run =>
        have hhigh := Utf8.broken_high hchunk b hbyte
        omega

/-- A name is quoted with double quotes if single quotes would have to be escaped in it
and double quotes need not. -/
theorem delimiter_eq_double_iff (name : List UInt8) :
    delimiter (pieces name) = '"' ↔ 0x27 ∈ name ∧ 0x22 ∉ name := by
  have hsingle : Piece.char '\'' ∈ pieces name ↔ 0x27 ∈ name :=
    char_mem_pieces_iff rfl (by decide)
  have hdouble : Piece.char '"' ∈ pieces name ↔ 0x22 ∈ name :=
    char_mem_pieces_iff rfl (by decide)
  rw [← hsingle, ← hdouble, delimiter]
  split <;> simp_all

theorem quote_append_iff {a b : List UInt8} {s t : String} :
    quote a ++ s = quote b ++ t ↔ a = b ∧ s = t := by
  constructor
  · intro h
    have hchars := congrArg String.toList h
    simp only [quote, String.toList_append, String.toList_ofList] at hchars
    obtain ⟨rfl, hrest⟩ := quoteChars_append_inj hchars
    exact ⟨rfl, String.toList_injective hrest⟩
  · rintro ⟨rfl, rfl⟩
    rfl

/-- No printable character is a control, a line break or a hidden character. -/
theorem visible_of_printable {c : Char} (h : Printable.isPrintable c = true) :
    Printable.control.contains c = false ∧ Printable.hidden.contains c = false ∧
      (Printable.whiteSpace.contains c = true → c = ' ') := by
  by_cases hc : c = ' '
  · subst hc
    decide
  · simp [Printable.isPrintable, hc] at h
    simp [h]

/-- A quoted name ends itself and says which name it is; its quotes stand around it and
nowhere else but escaped, and all of it is printable. -/
theorem quote_delimited (name : List UInt8) :
    (∀ (other : List UInt8) (s t : String),
      quote name ++ s = quote other ++ t ↔ name = other ∧ s = t) ∧
    (∃ (mark : Char) (body : List Char), (quote name).toList = mark :: (body ++ [mark]) ∧
      (mark = '\'' ∨ mark = '"') ∧ (mark = '"' ↔ 0x27 ∈ name ∧ 0x22 ∉ name) ∧
      ∀ front back, body = front ++ mark :: back → ∃ before n,
        front = before ++ List.replicate (2 * n + 1) '\\' ∧ before.getLast? ≠ some '\\') ∧
    ∀ c ∈ (quote name).toList, Printable.isPrintable c = true ∧
      Printable.control.contains c = false ∧ Printable.hidden.contains c = false ∧
      (Printable.whiteSpace.contains c = true → c = ' ') := by
  have hmark := isQuote_delimiter (pieces name)
  have htext : (quote name).toList = quoteChars name := String.toList_ofList ..
  refine ⟨fun other s t => quote_append_iff, ⟨delimiter (pieces name),
    (pieces name).flatMap (Piece.written (delimiter (pieces name))), ?_, hmark,
    delimiter_eq_double_iff name, fun front back hbody => ?_⟩, fun c hc => ?_⟩
  · rw [htext, quoteChars, List.cons_append]
  · obtain ⟨before, count, hfront, hlast, hiff⟩ := escapesNext_cases front
    have hodd := hiff.1 (escapesNext_of_pieces hmark hbody)
    refine ⟨before, count / 2, ?_, hlast⟩
    rw [hfront, show 2 * (count / 2) + 1 = count by omega]
  · rw [htext] at hc
    have hprintable := printable_quoteChars hc
    exact ⟨hprintable, visible_of_printable hprintable⟩

/-- A name of a double quote, a backslash and a single quote: two backslashes stand for
the one in the name, and one more escapes the single quote. -/
theorem quote_delimited_backslash : ∃ before n,
    ['"', '\\', '\\', '\\'] = before ++ List.replicate (2 * n + 1) '\\' ∧
      before.getLast? ≠ some '\\' := by
  obtain ⟨-, ⟨mark, body, htext, -, -, hescaped⟩, -⟩ := quote_delimited [0x22, 0x5c, 0x27]
  have hquoted : (quote [0x22, 0x5c, 0x27]).toList =
      ['\'', '"', '\\', '\\', '\\', '\'', '\''] :=
    String.toList_ofList.trans (by decide +kernel)
  rw [hquoted] at htext
  obtain ⟨rfl, hbody⟩ := List.cons.inj htext
  have hsplit : body = ['"', '\\', '\\', '\\'] ++ '\'' :: [] := by
    rw [← List.append_left_inj ['\''], ← hbody]
    rfl
  exact hescaped _ _ hsplit

end TreeCompare.Quoted
