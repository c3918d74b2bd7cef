import Mathlib.Algebra.Ring.Nat
import Mathlib.Tactic.SplitIfs
import TreeCompare.Proofs.Text.Numeral
import TreeCompare.Proofs.Text.Utf8
import TreeCompare.Text.Quoted

/-!
# Quoted names can be read back

The written form of a piece says where it ends and which piece it is, so a quoted
name gives back its pieces up to the closing quote, whatever text follows it. Pieces
spell the name they were taken from, hence no two names are quoted alike. All of a
quoted name is printable.
-/
namespace TreeCompare.Quoted

open Numeral (hexDigits hexValue)

/-- A character that can stand around a name. -/
def IsQuote (quote : Char) : Prop := quote = '\'' ∨ quote = '"'

theorem isQuote_delimiter (ps : List Piece) : IsQuote (delimiter ps) := by
  unfold delimiter
  split
  · exact .inr rfl
  · exact .inl rfl

/-- The piece that an escaped code point stands for. -/
def Piece.ofCode (code : Nat) : Piece :=
  if 0xdc00 ≤ code ∧ code < 0xdd00 then .stray (UInt8.ofNat (code - 0xdc00))
  else .char (Char.ofNat code)

/-- How many digits follow the letter of an escape. -/
def width? (c : Char) : Option Nat :=
  if c = 'x' then some 2 else if c = 'u' then some 4 else if c = 'U' then some 8 else none

/-- Reads what follows a backslash. -/
def readEscape : List Char → Option (Piece × List Char)
  | [] => none
  | c :: rest =>
      match width? c with
      | some width => some (.ofCode (hexValue (rest.take width)), rest.drop width)
      | none =>
          if c = 'n' then some (.char '\n', rest)
          else if c = 'r' then some (.char '\r', rest)
          else if c = 't' then some (.char '\t', rest)
          else some (.char c, rest)

/-- Reads one piece of a quoted name, unless the name ends here. -/
def readPiece (quote : Char) : List Char → Option (Piece × List Char)
  | [] => none
  | c :: rest =>
      if c = quote then none
      else if c = '\\' then readEscape rest
      else some (.char c, rest)

theorem readEscape_digits {c : Char} {width code : Nat} (hc : width? c = some width)
    (hcode : code < 16 ^ width) (rest : List Char) :
    readEscape (c :: (hexDigits width code ++ rest)) = some (.ofCode code, rest) := by
  have hlength := Numeral.length_hexDigits width code
  rw [readEscape, hc]
  simp only
  rw [List.take_left' hlength, List.drop_left' hlength, Numeral.hexValue_hexDigits hcode]

theorem readEscape_escapeCode {code : Nat} (hcode : code < 16 ^ 8) (rest : List Char) :
    ∃ escape, escapeCode code = '\\' :: escape ∧
      readEscape (escape ++ rest) = some (.ofCode code, rest) := by
  unfold escapeCode
  split_ifs with hx hu
  · exact ⟨_, rfl, readEscape_digits rfl hx rest⟩
  · exact ⟨_, rfl, readEscape_digits rfl hu rest⟩
  · exact ⟨_, rfl, readEscape_digits rfl hcode rest⟩

theorem ofCode_stray (byte : UInt8) : Piece.ofCode (0xdc00 + byte.toNat) = .stray byte := by
  have hbyte := byte.toNat_lt
  rw [Piece.ofCode, if_pos (by omega), Nat.add_sub_cancel_left, UInt8.ofNat_toNat]

/-- No character has a code point that a stray byte is written with. -/
theorem ofCode_char (c : Char) : Piece.ofCode c.toNat = .char c := by
  have hvalid : c.toNat.isValidChar := c.valid
  rw [Piece.ofCode, if_neg (by simp only [Nat.isValidChar] at hvalid; omega), Char.ofNat_toNat]

/-- A written piece is read back, whatever follows it. -/
theorem readPiece_written {quote : Char} (hq : IsQuote quote) (p : Piece) (rest : List Char) :
    readPiece quote (p.written quote ++ rest) = some (p, rest) := by
  have hback : '\\' ≠ quote := by
    rintro rfl
    rcases hq with h | h <;> cases h
  have hescape {escape : List Char} : readPiece quote ('\\' :: escape) = readEscape escape := by
    rw [readPiece, if_neg hback, if_pos rfl]
  cases p with
  | stray byte =>
      have hbyte := byte.toNat_lt
      have hbound : 0xdc00 + byte.toNat < 16 ^ 8 := by omega
      obtain ⟨escape, hcode, hread⟩ := readEscape_escapeCode hbound rest
      rw [Piece.written, hcode, List.cons_append, hescape, hread, ofCode_stray]
  | char c =>
      rw [Piece.written]
      split_ifs with h₁ h₂ h₃ h₄ h₅ h₆
      · subst h₁
        exact hescape
      · subst h₂
        exact hescape
      · subst h₃
        exact hescape
      · subst h₄
        exact hescape
      · subst h₅
        rw [List.cons_append, hescape]
        rcases hq with rfl | rfl <;> rfl
      · rw [List.cons_append, readPiece, if_neg h₅, if_neg h₁, List.nil_append]
      · have hvalid : c.toNat.isValidChar := c.valid
        have hbound : c.toNat < 16 ^ 8 := by
          simp only [Nat.isValidChar] at hvalid
          omega
        obtain ⟨escape, hcode, hread⟩ := readEscape_escapeCode hbound rest
        rw [hcode, List.cons_append, hescape, hread, ofCode_char]

theorem readPiece_quote (quote : Char) (rest : List Char) :
    readPiece quote (quote :: rest) = none := by
  rw [readPiece, if_pos rfl]

/-- The closing quote is where the pieces end. -/
theorem flatMap_written_inj {quote : Char} (hq : IsQuote quote) {ps ps' : List Piece}
    {s t : List Char} (h : ps.flatMap (Piece.written quote) ++ quote :: s =
      ps'.flatMap (Piece.written quote) ++ quote :: t) : ps = ps' ∧ s = t := by
  have hread := congrArg (readPiece quote) h
  induction ps generalizing ps' with
  | nil =>
      cases ps' with
      | nil => exact ⟨rfl, List.tail_eq_of_cons_eq h⟩
      | cons p' ps' =>
          rw [List.flatMap_cons, List.append_assoc, readPiece_written hq] at hread
          rw [List.flatMap_nil, List.nil_append, readPiece_quote] at hread
          cases hread
  | cons p ps ih =>
      rw [List.flatMap_cons, List.append_assoc, readPiece_written hq] at hread
      cases ps' with
      | nil =>
          rw [List.flatMap_nil, List.nil_append, readPiece_quote] at hread
          cases hread
      | cons p' ps' =>
          rw [List.flatMap_cons, List.append_assoc, readPiece_written hq] at hread
          obtain ⟨rfl, hrest⟩ := Prod.mk.inj (Option.some.inj hread)
          obtain ⟨rfl, rfl⟩ := ih hrest (congrArg _ hrest)
          exact ⟨rfl, rfl⟩

theorem flatMap_stray (run : List UInt8) : (run.map Piece.stray).flatMap Piece.bytes = run := by
  rw [List.flatMap_map]
  exact List.flatMap_singleton' run

/-- The pieces of a name spell it. -/
theorem flatMap_pieces (name : List UInt8) : (pieces name).flatMap Piece.bytes = name := by
  have hchunk (chunk : Utf8.Chunk) : (Piece.ofChunk chunk).flatMap Piece.bytes = chunk.bytes := by
    cases chunk with
    | char c => simp [Piece.ofChunk, Piece.bytes, Utf8.Chunk.bytes]
    | broken bytes => exact flatMap_stray bytes
  rw [pieces, List.flatMap_assoc]
  simp only [hchunk]
  exact Utf8.flatMap_chunks name

/-- A quoted name ends itself, and no two names are quoted alike. -/
theorem quoteChars_append_inj {a b : List UInt8} {s t : List Char}
    (h : quoteChars a ++ s = quoteChars b ++ t) : a = b ∧ s = t := by
  simp only [quoteChars, List.cons_append, List.append_assoc, List.nil_append] at h
  obtain ⟨hquote, hrest⟩ := List.cons.inj h
  rw [← hquote] at hrest
  obtain ⟨hpieces, rfl⟩ := flatMap_written_inj (isQuote_delimiter _) hrest
  have hbytes := congrArg (List.flatMap Piece.bytes) hpieces
  rw [flatMap_pieces, flatMap_pieces] at hbytes
  exact ⟨hbytes, rfl⟩

theorem printable_of_ascii {c : Char} (hlow : 0x21 ≤ c.toNat) (hhigh : c.toNat ≤ 0x7e) :
    Printable.isPrintable c = true := by
  have hout (ranges : Printable.Ranges) (h : ∀ r ∈ ranges, r.2 < 0x21 ∨ 0x7e < r.1) :
      ranges.contains c = false := by
    refine List.any_eq_false.2 fun r hr => ?_
    rcases h r hr with h | h <;> simp <;> omega
  rw [Printable.isPrintable, hout _ (by decide), hout _ (by decide), hout _ (by decide)]
  simp

theorem printable_of_mem_hexDigits {width n : Nat} {c : Char} (h : c ∈ hexDigits width n) :
    Printable.isPrintable c = true := by
  have hdigits : ∀ d < 16, Printable.isPrintable (Nat.digitChar d) = true := by decide
  obtain ⟨d, hd, rfl⟩ := Numeral.mem_hexDigits h
  exact hdigits d hd

theorem printable_of_mem_escapeCode {code : Nat} {c : Char} (h : c ∈ escapeCode code) :
    Printable.isPrintable c = true := by
  unfold escapeCode at h
  split_ifs at h <;>
  · rcases List.mem_cons.1 h with rfl | h
    · decide
    rcases List.mem_cons.1 h with rfl | h
    · decide
    exact printable_of_mem_hexDigits h

theorem printable_quote {quote : Char} (hq : IsQuote quote) :
    Printable.isPrintable quote = true := by
  rcases hq with rfl | rfl <;> decide

theorem printable_written {quote : Char} (hq : IsQuote quote) {p : Piece} {c : Char}
    (h : c ∈ p.written quote) : Printable.isPrintable c = true := by
  cases p with
  | stray byte => exact printable_of_mem_escapeCode h
  | char d =>
      have hpair {e : Char} (he : Printable.isPrintable e = true) (hm : c ∈ ['\\', e]) :
          Printable.isPrintable c = true := by
        rcases List.mem_cons.1 hm with rfl | hm
        · decide
        · rwa [List.mem_singleton.1 hm]
      rw [Piece.written] at h
      split_ifs at h with h₁ h₂ h₃ h₄ h₅ h₆
      · exact hpair (by decide) h
      · exact hpair (by decide) h
      · exact hpair (by decide) h
      · exact hpair (by decide) h
      · exact hpair (h₅ ▸ printable_quote hq) h
      · rwa [List.mem_singleton.1 h]
      · exact printable_of_mem_escapeCode h

theorem printable_quoteChars {name : List UInt8} {c : Char} (h : c ∈ quoteChars name) :
    Printable.isPrintable c = true := by
  have hq := isQuote_delimiter (pieces name)
  rw [quoteChars, List.cons_append] at h
  rcases List.mem_cons.1 h with rfl | h
  · exact printable_quote hq
  rcases List.mem_append.1 h with h | h
  · obtain ⟨p, -, hp⟩ := List.mem_flatMap.1 h
    exact printable_written hq hp
  · rw [List.mem_singleton.1 h]
    exact printable_quote hq

end TreeCompare.Quoted
