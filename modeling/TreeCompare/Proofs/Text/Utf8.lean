import Mathlib.Algebra.Ring.Nat
import TreeCompare.Text.Utf8

/-!
# Nothing is lost in reading UTF-8

The bytes after a lead byte are the digits of the code point to the base 64. A
character that is read stands for exactly the bytes it was read from, since what a
lead byte opens leaves out all other forms of its code point; broken runs keep their
bytes as they are. So the parts of a byte string spell it again.
-/
namespace TreeCompare.Utf8

/-- The last bytes of the form of a code point. -/
def continuation : (count : Nat) → (code : Nat) → List UInt8
  | 0, _ => []
  | count + 1, code =>
      UInt8.ofNat (code / 64 ^ count % 64 + 0x80) :: continuation count code

theorem complete_cases {low high : UInt8} (hlow : 0x80 ≤ low.toNat) (hhigh : high.toNat ≤ 0xbf)
    (read : List UInt8) (bits wanted : Nat) (rest : List UInt8) :
    (∃ more tail, rest = more ++ tail ∧
      complete read bits wanted low high rest = (.broken (read ++ more), tail)) ∨
    (∃ code tail, rest = continuation wanted code ++ tail ∧ code / 64 ^ wanted = bits ∧
      (wanted ≠ 0 → low.toNat ≤ code / 64 ^ (wanted - 1) % 64 + 0x80 ∧
        code / 64 ^ (wanted - 1) % 64 + 0x80 ≤ high.toNat) ∧
      complete read bits wanted low high rest = (.char (Char.ofNat code), tail)) := by
  induction wanted generalizing read bits low high rest with
  | zero =>
      refine .inr ⟨bits, rest, rfl, by simp, by simp, ?_⟩
      rw [complete]
  | succ n ih =>
      cases rest with
      | nil =>
          refine .inl ⟨[], [], rfl, ?_⟩
          rw [complete, List.append_nil]
      | cons b rest =>
          rw [complete]
          by_cases hb : low ≤ b ∧ b ≤ high
          · rw [if_pos hb]
            obtain ⟨hbl, hbh⟩ := hb
            rw [UInt8.le_iff_toNat_le] at hbl hbh
            have hfirst : 0x80 ≤ (0x80 : UInt8).toNat := by decide
            have hlast : (0xbf : UInt8).toNat ≤ 0xbf := by decide
            obtain ⟨more, tail, rfl, heq⟩ | ⟨code, tail, rfl, hcode, -, heq⟩ :=
              ih hfirst hlast (read ++ [b]) (bits * 64 + (b.toNat - 0x80)) rest
            · exact .inl ⟨b :: more, tail, rfl, by rw [heq]; simp⟩
            · have hdigit : code / 64 ^ n % 64 + 0x80 = b.toNat := by omega
              refine .inr ⟨code, tail, ?_, ?_, fun _ => ?_, heq⟩
              · rw [continuation, hdigit, UInt8.ofNat_toNat, List.cons_append]
              · rw [Nat.pow_succ, ← Nat.div_div_eq_div_mul, hcode]
                omega
              · rw [Nat.add_sub_cancel, hdigit]
                exact ⟨hbl, hbh⟩
          · rw [if_neg hb]
            exact .inl ⟨[], b :: rest, rfl, by rw [List.append_nil]⟩

/-- What a lead byte opens, with the bounds that leave out all forms but one. -/
theorem opening_cases {lead : UInt8} {o : Opening} (h : opening? lead = some o) :
    (lead.toNat < 0x80 ∧ o = ⟨lead.toNat, 0, 0x80, 0xbf⟩) ∨
    (0xc2 ≤ lead.toNat ∧ lead.toNat < 0xe0 ∧ o = ⟨lead.toNat - 0xc0, 1, 0x80, 0xbf⟩) ∨
    (0xe0 ≤ lead.toNat ∧ lead.toNat < 0xf0 ∧ ∃ low high : UInt8,
      o = ⟨lead.toNat - 0xe0, 2, low, high⟩ ∧ 0x80 ≤ low.toNat ∧ high.toNat ≤ 0xbf ∧
      (lead.toNat = 0xe0 → 0xa0 ≤ low.toNat) ∧ (lead.toNat = 0xed → high.toNat ≤ 0x9f)) ∨
    (0xf0 ≤ lead.toNat ∧ lead.toNat < 0xf5 ∧ ∃ low high : UInt8,
      o = ⟨lead.toNat - 0xf0, 3, low, high⟩ ∧ 0x80 ≤ low.toNat ∧ high.toNat ≤ 0xbf ∧
      (lead.toNat = 0xf0 → 0x90 ≤ low.toNat) ∧ (lead.toNat = 0xf4 → high.toNat ≤ 0x8f)) := by
  simp only [opening?, UInt8.lt_iff_toNat_lt, ← UInt8.toNat_inj, UInt8.reduceToNat] at h
  split at h
  · next h₁ => exact .inl ⟨h₁, (Option.some.inj h).symm⟩
  split at h
  · cases h
  split at h
  · next h₂ h₃ => exact .inr (.inl ⟨by omega, h₃, (Option.some.inj h).symm⟩)
  split at h
  · next h₃ h₄ =>
      refine .inr (.inr (.inl ⟨by omega, h₄, _, _, (Option.some.inj h).symm, ?_, ?_, ?_, ?_⟩)) <;>
        split <;> simp <;> omega
  split at h
  · next h₄ h₅ =>
      refine .inr (.inr (.inr ⟨by omega, h₅, _, _, (Option.some.inj h).symm, ?_, ?_, ?_, ?_⟩)) <;>
        split <;> simp <;> omega
  · cases h

/-- What may follow a lead byte is in the range of the bytes that continue a form. -/
theorem opening_bounds {lead : UInt8} {o : Opening} (h : opening? lead = some o) :
    0x80 ≤ o.low.toNat ∧ o.high.toNat ≤ 0xbf := by
  obtain ⟨-, rfl⟩ | ⟨-, -, rfl⟩ | ⟨-, -, low, high, rfl, hl, hh, -⟩ |
    ⟨-, -, low, high, rfl, hl, hh, -⟩ := opening_cases h
  · simp
  · simp
  · exact ⟨hl, hh⟩
  · exact ⟨hl, hh⟩

theorem toNat_ofNat_of_valid {code : Nat} (h : code.isValidChar) :
    (Char.ofNat code).val.toNat = code := by
  rw [Char.ofNat, dif_pos h]
  rfl

/-- A character whose first byte opened it is encoded by the bytes that it was read from. -/
theorem encode_of_opening {lead : UInt8} {o : Opening} (h : opening? lead = some o) {code : Nat}
    (hbits : code / 64 ^ o.wanted = o.bits)
    (hfirst : o.wanted ≠ 0 → o.low.toNat ≤ code / 64 ^ (o.wanted - 1) % 64 + 0x80 ∧
      code / 64 ^ (o.wanted - 1) % 64 + 0x80 ≤ o.high.toNat) :
    String.utf8EncodeChar (Char.ofNat code) = lead :: continuation o.wanted code := by
  obtain ⟨hlead, rfl⟩ | ⟨hlow, hhigh, rfl⟩ | ⟨hlow, hhigh, low, high, rfl, hl, hh, hover, hsur⟩ |
    ⟨hlow, hhigh, low, high, rfl, hl, hh, hover, hmax⟩ := opening_cases h
  · simp only [Nat.pow_zero, Nat.div_one] at hbits
    have hvalid : code.isValidChar := by simp only [Nat.isValidChar]; omega
    have hval := toNat_ofNat_of_valid hvalid
    simp only [String.utf8EncodeChar, hval, continuation]
    rw [if_pos (by omega), hbits, UInt8.ofNat_toNat]
  · simp only [Nat.pow_one] at hbits
    have hvalid : code.isValidChar := by simp only [Nat.isValidChar]; omega
    have hval := toNat_ofNat_of_valid hvalid
    simp only [String.utf8EncodeChar, hval, continuation, Nat.pow_zero, Nat.div_one]
    rw [if_neg (by omega), if_pos (by omega),
      show code / 64 % 0x20 + 0xc0 = lead.toNat by omega, UInt8.ofNat_toNat]
  · obtain ⟨hsecond, hsecond'⟩ := hfirst (by simp)
    simp only [Nat.reducePow, Nat.add_one_sub_one] at hbits hsecond hsecond'
    have hvalid : code.isValidChar := by simp only [Nat.isValidChar]; omega
    have hval := toNat_ofNat_of_valid hvalid
    simp only [String.utf8EncodeChar, hval, continuation, Nat.reducePow, Nat.div_one]
    rw [if_neg (by omega), if_neg (by omega), if_pos (by omega),
      show code / 4096 % 0x10 + 0xe0 = lead.toNat by omega, UInt8.ofNat_toNat]
  · obtain ⟨hsecond, hsecond'⟩ := hfirst (by simp)
    simp only [Nat.reducePow, Nat.add_one_sub_one] at hbits hsecond hsecond'
    have hvalid : code.isValidChar := by simp only [Nat.isValidChar]; omega
    have hval := toNat_ofNat_of_valid hvalid
    simp only [String.utf8EncodeChar, hval, continuation, Nat.reducePow, Nat.div_one]
    rw [if_neg (by omega), if_neg (by omega), if_neg (by omega),
      show code / 262144 % 0x08 + 0xf0 = lead.toNat by omega, UInt8.ofNat_toNat]

/-- The first part of a byte string and what is left spell the whole. -/
theorem next_bytes (lead : UInt8) (rest : List UInt8) :
    (next lead rest).1.bytes ++ (next lead rest).2 = lead :: rest := by
  unfold next
  split
  · rfl
  · next o ho =>
      have hbounds := opening_bounds ho
      obtain ⟨more, tail, rfl, heq⟩ | ⟨code, tail, rfl, hbits, hfirst, heq⟩ :=
        complete_cases hbounds.1 hbounds.2 [lead] o.bits o.wanted rest
      · rw [heq]
        simp [Chunk.bytes]
      · rw [heq]
        change String.utf8EncodeChar (Char.ofNat code) ++ tail = _
        rw [encode_of_opening ho hbits hfirst, List.cons_append]

theorem chunks_cons (lead : UInt8) (rest : List UInt8) :
    chunks (lead :: rest) = (next lead rest).1 :: chunks (next lead rest).2 := by
  rw [chunks]

/-- The parts of a byte string spell it again. -/
theorem flatMap_chunks (bytes : List UInt8) : (chunks bytes).flatMap Chunk.bytes = bytes := by
  induction bytes using chunks.induct with
  | case1 => rw [chunks]; rfl
  | case2 lead rest ih => rw [chunks_cons, List.flatMap_cons, ih, next_bytes]

end TreeCompare.Utf8
