import TreeCompare.Proofs.Text.Decoding
import TreeCompare.Proofs.Text.Quoted

/-!
# The pieces of a name

A name is read as characters and broken runs, but its pieces can be told without the
runs: where the form of a character begins, this character is a piece, and where none
begins, the next byte is. For the bytes of a run behind its first only continue a form.
Hence stray bytes never hold the form of a character, not even across the ends of
broken runs, and a name has no other pieces of which this can be said.
-/
namespace TreeCompare

namespace Utf8

theorem continues_of_mem_continuation {count code : Nat} {b : UInt8}
    (h : b ∈ continuation count code) : Continues b := by
  induction count with
  | zero => cases h
  | succ n ih =>
      rcases List.mem_cons.1 h with rfl | h
      · rw [Continues, UInt8.toNat_ofNat']
        omega
      · exact ih h

/-- A byte that continues a form opens none. -/
theorem opening?_of_continues {b : UInt8} (h : Continues b) : opening? b = none := by
  unfold Continues at h
  cases ho : opening? b with
  | none => rfl
  | some o =>
      obtain ⟨hlead, -⟩ | ⟨hlead, -⟩ | ⟨hlead, -⟩ | ⟨hlead, -⟩ := opening_cases ho <;> omega

/-- The first byte of a form opens it and the others continue it. -/
theorem encodeChar_eq_cons (c : Char) : ∃ lead more,
    String.utf8EncodeChar c = lead :: more ∧ ¬ Continues lead ∧ ∀ b ∈ more, Continues b := by
  have hvalid : c.toNat.isValidChar := c.valid
  obtain ⟨lead, o, ho, hbits, hfirst⟩ := exists_opening hvalid
  have hencode := encode_of_opening ho hbits hfirst
  rw [Char.ofNat_toNat] at hencode
  refine ⟨lead, _, hencode, fun hc => ?_, fun b => continues_of_mem_continuation⟩
  rw [opening?_of_continues hc] at ho
  cases ho

end Utf8

namespace Quoted

open Utf8 (Continues)

theorem pieces_nil : pieces [] = [] := by
  rw [pieces, Utf8.chunks]
  rfl

theorem pieces_cons (lead : UInt8) (rest : List UInt8) :
    pieces (lead :: rest) =
      Piece.ofChunk (Utf8.next lead rest).1 ++ pieces (Utf8.next lead rest).2 := by
  rw [pieces, Utf8.chunks_cons, List.flatMap_cons]
  rfl

/-- A text at the front of a name is read as its characters. -/
theorem pieces_flatMap_append (cs : List Char) (rest : List UInt8) :
    pieces (cs.flatMap String.utf8EncodeChar ++ rest) = cs.map .char ++ pieces rest := by
  rw [pieces, Utf8.chunks_flatMap_append, List.flatMap_append, List.flatMap_map]
  exact congrArg (· ++ pieces rest) List.map_eq_flatMap.symm

theorem pieces_encodeChar_append (c : Char) (rest : List UInt8) :
    pieces (String.utf8EncodeChar c ++ rest) = .char c :: pieces rest := by
  rw [← List.flatMap_singleton String.utf8EncodeChar c]
  exact pieces_flatMap_append [c] rest

theorem pieces_of_continues {b : UInt8} (h : Continues b) (rest : List UInt8) :
    pieces (b :: rest) = .stray b :: pieces rest := by
  have hnext : Utf8.next b rest = (.broken [b], rest) := by
    rw [Utf8.next, Utf8.opening?_of_continues h]
  rw [pieces_cons, hnext]
  rfl

theorem pieces_continues_append {more : List UInt8} (h : ∀ b ∈ more, Continues b)
    (rest : List UInt8) : pieces (more ++ rest) = more.map .stray ++ pieces rest := by
  induction more with
  | nil => rfl
  | cons b more ih =>
      obtain ⟨hb, hmore⟩ := List.forall_mem_cons.1 h
      rw [List.cons_append, pieces_of_continues hb, ih hmore]
      rfl

/-- A byte with which no character begins is a stray piece, and what is behind it is
read as if the byte were not there. -/
theorem pieces_of_no_char {b : UInt8} {rest : List UInt8}
    (h : ∀ c, ¬ String.utf8EncodeChar c <+: b :: rest) :
    pieces (b :: rest) = .stray b :: pieces rest := by
  rcases hnext : Utf8.next b rest with ⟨c | bytes, tail⟩
  · have hspelled := Utf8.next_bytes b rest
    rw [hnext] at hspelled
    exact absurd ⟨tail, hspelled⟩ (h c)
  · obtain ⟨more, rfl, rfl, hmore⟩ := Utf8.next_broken_eq_cons hnext
    rw [pieces_cons, hnext, pieces_continues_append hmore]
    rfl

/-- The two ways in which a name can begin. -/
theorem pieces_cases (b : UInt8) (rest : List UInt8) :
    (∃ c tail, b :: rest = String.utf8EncodeChar c ++ tail ∧
      pieces (b :: rest) = .char c :: pieces tail) ∨
    ((∀ c, ¬ String.utf8EncodeChar c <+: b :: rest) ∧
      pieces (b :: rest) = .stray b :: pieces rest) := by
  by_cases h : ∃ c, String.utf8EncodeChar c <+: b :: rest
  · obtain ⟨c, tail, hspelled⟩ := h
    exact .inl ⟨c, tail, hspelled.symm, by rw [← hspelled, pieces_encodeChar_append]⟩
  · have hnone := not_exists.1 h
    exact .inr ⟨hnone, pieces_of_no_char hnone⟩

/-- Whether there is a character whose whole form stands in stray bytes side by side. -/
def HidesChar (ps : List Piece) : Prop :=
  ∃ front c back, ps = front ++ (String.utf8EncodeChar c).map .stray ++ back

theorem HidesChar.of_run {ps front back : List Piece} {run : List UInt8} {c : Char}
    (h : ps = front ++ run.map .stray ++ back) (hc : String.utf8EncodeChar c <:+: run) :
    HidesChar ps := by
  obtain ⟨before, after, rfl⟩ := hc
  refine ⟨front ++ before.map .stray, c, after.map .stray ++ back, ?_⟩
  rw [h]
  simp only [List.map_append, List.append_assoc]

theorem hidesChar_cons_iff {p : Piece} {ps : List Piece} :
    HidesChar (p :: ps) ↔
      (∃ c back, p :: ps = (String.utf8EncodeChar c).map .stray ++ back) ∨ HidesChar ps := by
  constructor
  · rintro ⟨front, c, back, h⟩
    cases front with
    | nil => exact .inl ⟨c, back, h⟩
    | cons q front =>
        obtain ⟨-, htail⟩ := List.cons.inj h
        exact .inr ⟨front, c, back, htail⟩
  · rintro (⟨c, back, h⟩ | ⟨front, c, back, rfl⟩)
    · exact ⟨[], c, back, h⟩
    · exact ⟨p :: front, c, back, rfl⟩

/-- Pieces that begin with the bytes of a form spell a name that begins with the form. -/
theorem isPrefix_of_hidden {ps back : List Piece} {c : Char}
    (h : ps = (String.utf8EncodeChar c).map .stray ++ back) :
    String.utf8EncodeChar c <+: ps.flatMap Piece.bytes := by
  refine ⟨back.flatMap Piece.bytes, ?_⟩
  rw [h, List.flatMap_append, flatMap_stray]

/-- No character is hidden in the stray bytes of a name. -/
theorem not_hidesChar_pieces (name : List UInt8) : ¬ HidesChar (pieces name) := by
  -- by the length, since a character takes all bytes of its form off the name
  induction hn : name.length using Nat.strongRecOn generalizing name with
  | ind n ih =>
      cases name with
      | nil =>
          rintro ⟨front, c, back, h⟩
          obtain ⟨lead, more, hc, -⟩ := Utf8.encodeChar_eq_cons c
          simp [pieces_nil, hc] at h
      | cons b rest =>
          have hspelled := flatMap_pieces (b :: rest)
          obtain ⟨d, tail, hname, hread⟩ | ⟨hnone, hread⟩ := pieces_cases b rest
          · obtain ⟨lead, more, hd, -⟩ := Utf8.encodeChar_eq_cons d
            have hshort : tail.length < n := by
              have hlength := congrArg List.length hname
              rw [hd] at hlength
              simp only [List.length_cons, List.length_append] at hn hlength
              omega
            rw [hread, hidesChar_cons_iff]
            rintro (⟨c, back, h⟩ | h)
            · obtain ⟨first, others, hc, -⟩ := Utf8.encodeChar_eq_cons c
              rw [hc] at h
              cases h
            · exact ih _ hshort tail rfl h
          · rw [hread] at hspelled
            rw [hread, hidesChar_cons_iff]
            rintro (⟨c, back, h⟩ | h)
            · exact hnone c (hspelled ▸ isPrefix_of_hidden h)
            · exact ih _ (hn ▸ Nat.lt_succ_self _) rest rfl h

/-- Pieces that hide no character are the pieces of the name that they spell. -/
theorem eq_pieces_of_not_hidesChar {ps : List Piece} (h : ¬ HidesChar ps) :
    ps = pieces (ps.flatMap Piece.bytes) := by
  induction ps with
  | nil => rw [List.flatMap_nil, pieces_nil]
  | cons p ps ih =>
      obtain ⟨hfirst, hrest⟩ := not_or.1 (mt hidesChar_cons_iff.2 h)
      have hread := ih hrest
      rw [List.flatMap_cons]
      cases p with
      | char c => rw [Piece.bytes, pieces_encodeChar_append, ← hread]
      | stray b =>
          rw [Piece.bytes, List.singleton_append, pieces_of_no_char, ← hread]
          rintro c ⟨tail, hc⟩
          -- what continues the form of `c` behind `b` would be read as stray bytes too
          obtain ⟨lead, more, hform, -, hmore⟩ := Utf8.encodeChar_eq_cons c
          rw [hform] at hc
          obtain ⟨rfl, hbytes⟩ := List.cons.inj hc
          apply hfirst
          refine ⟨c, pieces tail, ?_⟩
          rw [hread, ← hbytes, List.append_eq, pieces_continues_append hmore, hform]
          rfl

theorem high_of_stray {name : List UInt8} {byte : UInt8} (h : .stray byte ∈ pieces name) :
    0x80 ≤ byte.toNat := by
  obtain ⟨chunk, hchunk, hpiece⟩ := List.mem_flatMap.1 h
  cases chunk with
  | char c => simp [Piece.ofChunk] at hpiece
  | broken run =>
      obtain ⟨b, hb, heq⟩ := List.mem_map.1 hpiece
      obtain rfl := Piece.stray.inj heq
      exact Utf8.broken_high hchunk b hb

/-- The pieces of a name spell it; text is read as its characters, whatever bytes come
after it; and the stray bytes, none of them in the ASCII range, hold no character's form
side by side. The pieces are the only ones that spell the name and hide no character. -/
theorem pieces_decode (name : List UInt8) :
    (pieces name).flatMap Piece.bytes = name ∧
    (∀ byte, .stray byte ∈ pieces name → 0x80 ≤ byte.toNat) ∧
    (∀ cs : List Char, pieces (cs.flatMap String.utf8EncodeChar) = cs.map .char) ∧
    (∀ (cs : List Char) (rest : List UInt8),
      pieces (cs.flatMap String.utf8EncodeChar ++ rest) = cs.map .char ++ pieces rest) ∧
    (∀ (front back : List Piece) (run : List UInt8), pieces name = front ++ run.map .stray ++ back →
      ∀ c, ¬ String.utf8EncodeChar c <:+: run) ∧
    ∀ ps : List Piece, ps = pieces name ↔ ps.flatMap Piece.bytes = name ∧ ¬ HidesChar ps := by
  refine ⟨flatMap_pieces name, fun byte => high_of_stray, fun cs => ?_, pieces_flatMap_append,
    fun front back run h c hc => ?_, fun ps => ?_⟩
  · have hread := pieces_flatMap_append cs []
    rwa [List.append_nil, pieces_nil, List.append_nil] at hread
  · exact not_hidesChar_pieces name (.of_run h hc)
  · constructor
    · rintro rfl
      exact ⟨flatMap_pieces name, not_hidesChar_pieces name⟩
    · rintro ⟨rfl, h⟩
      exact eq_pieces_of_not_hidesChar h

/-- Two broken runs side by side: a begun character of four bytes and one of three. -/
theorem pieces_decode_broken : ∀ c, ¬ String.utf8EncodeChar c <:+: [0xf0, 0x90, 0xe2, 0x82] := by
  have hread : pieces [0xf0, 0x90, 0xe2, 0x82, 0x61] =
      [] ++ [0xf0, 0x90, 0xe2, 0x82].map .stray ++ [.char 'a'] := by decide +kernel
  obtain ⟨-, -, -, -, hrun, -⟩ := pieces_decode [0xf0, 0x90, 0xe2, 0x82, 0x61]
  exact hrun [] [.char 'a'] _ hread

end Quoted

end TreeCompare
