import TreeCompare.Proofs.Text.Utf8

/-!
# Reading back what was encoded

The form of a character is read as this character, whatever comes after it. So an
encoded text is read as itself, and broken bytes behind it change nothing of it. The
bytes of broken runs are all above the ASCII range: they hide no line feed and no
other ASCII character, and each of these is read exactly where its byte stands.
-/
namespace TreeCompare.Utf8

/-- The bytes of a code point's form after the first are all read. -/
theorem complete_continuation (read : List UInt8) {code bits wanted : Nat} {low high : UInt8}
    (hbits : code / 64 ^ wanted = bits)
    (hfirst : wanted ≠ 0 → low.toNat ≤ code / 64 ^ (wanted - 1) % 64 + 0x80 ∧
      code / 64 ^ (wanted - 1) % 64 + 0x80 ≤ high.toNat) (rest : List UInt8) :
    complete read bits wanted low high (continuation wanted code ++ rest) =
      (.char (Char.ofNat code), rest) := by
  induction wanted generalizing read bits low high with
  | zero =>
      obtain rfl : code = bits := by simpa using hbits
      rw [continuation, List.nil_append, complete]
  | succ n ih =>
      obtain ⟨hlow, hhigh⟩ := hfirst n.succ_ne_zero
      rw [Nat.add_sub_cancel] at hlow hhigh
      have hdigit : (UInt8.ofNat (code / 64 ^ n % 64 + 0x80)).toNat =
          code / 64 ^ n % 64 + 0x80 := by
        rw [UInt8.toNat_ofNat']
        omega
      have hnext : code / 64 ^ n = bits * 64 + code / 64 ^ n % 64 := by
        rw [Nat.pow_succ, ← Nat.div_div_eq_div_mul] at hbits
        omega
      have hrange : low ≤ UInt8.ofNat (code / 64 ^ n % 64 + 0x80) ∧
          UInt8.ofNat (code / 64 ^ n % 64 + 0x80) ≤ high := by
        rw [UInt8.le_iff_toNat_le, UInt8.le_iff_toNat_le, hdigit]
        exact ⟨hlow, hhigh⟩
      rw [continuation, List.cons_append, complete, if_pos hrange, hdigit, Nat.add_sub_cancel,
        ← hnext]
      refine ih _ rfl fun _ => ?_
      simp only [UInt8.reduceToNat]
      omega

/-- Each code point that a character has is opened by some lead byte. -/
theorem exists_opening {code : Nat} (h : code.isValidChar) :
    ∃ lead o, opening? lead = some o ∧ code / 64 ^ o.wanted = o.bits ∧
      (o.wanted ≠ 0 → o.low.toNat ≤ code / 64 ^ (o.wanted - 1) % 64 + 0x80 ∧
        code / 64 ^ (o.wanted - 1) % 64 + 0x80 ≤ o.high.toNat) := by
  have hlead {n : Nat} (hn : n < 256) : (UInt8.ofNat n).toNat = n := by
    rw [UInt8.toNat_ofNat']
    omega
  simp only [Nat.isValidChar] at h
  by_cases h₁ : code < 0x80
  · refine ⟨UInt8.ofNat code, ⟨code, 0, 0x80, 0xbf⟩, ?_, by simp, by simp⟩
    simp only [opening?, UInt8.lt_iff_toNat_lt, UInt8.reduceToNat, hlead (n := code) (by omega)]
    rw [if_pos h₁]
  by_cases h₂ : code < 0x800
  · refine ⟨UInt8.ofNat (code / 64 + 0xc0), ⟨code / 64, 1, 0x80, 0xbf⟩, ?_, by simp, fun _ => ?_⟩
    · simp only [opening?, UInt8.lt_iff_toNat_lt, UInt8.reduceToNat,
        hlead (n := code / 64 + 0xc0) (by omega)]
      rw [if_neg (by omega), if_neg (by omega), if_pos (by omega), Nat.add_sub_cancel]
    · simp only [Nat.sub_self, Nat.pow_zero, Nat.div_one, UInt8.reduceToNat]
      omega
  by_cases h₃ : code < 0x10000
  · have hn : code / 4096 + 0xe0 < 256 := by omega
    refine ⟨UInt8.ofNat (code / 4096 + 0xe0), ⟨code / 4096, 2,
      if code / 4096 + 0xe0 = 0xe0 then 0xa0 else 0x80,
      if code / 4096 + 0xe0 = 0xed then 0x9f else 0xbf⟩, ?_, by simp, fun _ => ?_⟩
    · simp only [opening?, UInt8.lt_iff_toNat_lt, ← UInt8.toNat_inj, UInt8.reduceToNat, hlead hn]
      rw [if_neg (by omega), if_neg (by omega), if_neg (by omega), if_pos (by omega),
        Nat.add_sub_cancel]
    · simp only [Nat.add_one_sub_one, Nat.pow_one]
      constructor <;> split <;> simp only [UInt8.reduceToNat] <;> omega
  · have hn : code / 262144 + 0xf0 < 256 := by omega
    refine ⟨UInt8.ofNat (code / 262144 + 0xf0), ⟨code / 262144, 3,
      if code / 262144 + 0xf0 = 0xf0 then 0x90 else 0x80,
      if code / 262144 + 0xf0 = 0xf4 then 0x8f else 0xbf⟩, ?_, by simp, fun _ => ?_⟩
    · simp only [opening?, UInt8.lt_iff_toNat_lt, ← UInt8.toNat_inj, UInt8.reduceToNat, hlead hn]
      rw [if_neg (by omega), if_neg (by omega), if_neg (by omega), if_neg (by omega),
        if_pos (by omega), Nat.add_sub_cancel]
    · simp only [Nat.add_one_sub_one, Nat.reducePow]
      constructor <;> split <;> simp only [UInt8.reduceToNat] <;> omega

/-- The form of a character is read as the character. -/
theorem chunks_encodeChar_append (c : Char) (rest : List UInt8) :
    chunks (String.utf8EncodeChar c ++ rest) = .char c :: chunks rest := by
  have hvalid : c.toNat.isValidChar := c.valid
  obtain ⟨lead, o, ho, hbits, hfirst⟩ := exists_opening hvalid
  have hencode := encode_of_opening ho hbits hfirst
  have hnext := complete_continuation [lead] hbits hfirst rest
  rw [Char.ofNat_toNat] at hencode hnext
  rw [hencode, List.cons_append, chunks_cons, next, ho]
  simp only [hnext]

theorem encode_join (texts : List String) : encode (String.join texts) = texts.flatMap encode := by
  rw [encode, String.toList_join, List.flatMap_assoc]
  rfl

theorem chunks_flatMap_append (cs : List Char) (rest : List UInt8) :
    chunks (cs.flatMap String.utf8EncodeChar ++ rest) = cs.map .char ++ chunks rest := by
  induction cs with
  | nil => rfl
  | cons c cs ih =>
      rw [List.flatMap_cons, List.append_assoc, chunks_encodeChar_append, ih]
      rfl

/-- An encoded text is read as itself, whatever bytes follow it. -/
theorem lossy_encode_append (text : String) (rest : List UInt8) :
    lossy (encode text ++ rest) = text ++ lossy rest := by
  apply String.toList_injective
  rw [lossy, encode, chunks_flatMap_append, String.toList_append, lossy, String.toList_ofList,
    String.toList_ofList, List.map_append, List.map_map]
  exact congrArg (· ++ _) (List.map_id _)

theorem lossy_encode (text : String) : lossy (encode text) = text := by
  have h := lossy_encode_append text []
  rw [List.append_nil] at h
  rw [h, lossy, chunks]
  exact String.append_empty

/-- The bytes that a form can have behind its first. -/
def Continues (b : UInt8) : Prop := 0x80 ≤ b.toNat ∧ b.toNat ≤ 0xbf

theorem complete_broken {read bytes tail rest : List UInt8} {bits wanted : Nat} {low high : UInt8}
    (hlow : 0x80 ≤ low.toNat) (hhigh : high.toNat ≤ 0xbf)
    (h : complete read bits wanted low high rest = (.broken bytes, tail)) :
    ∃ more, bytes = read ++ more ∧ ∀ b ∈ more, Continues b := by
  induction rest generalizing read bits wanted low high with
  | nil =>
      cases wanted with
      | zero => simp [complete] at h
      | succ n =>
          rw [complete] at h
          obtain ⟨hbytes, -⟩ := Prod.mk.inj h
          exact ⟨[], by rw [List.append_nil, Chunk.broken.inj hbytes], by simp⟩
  | cons b rest ih =>
      cases wanted with
      | zero => simp [complete] at h
      | succ n =>
          rw [complete] at h
          split at h
          · next hb =>
              obtain ⟨more, rfl, hmore⟩ := ih (by decide) (by decide) h
              have hlower := Nat.le_trans hlow (UInt8.le_iff_toNat_le.1 hb.1)
              have hupper := Nat.le_trans (UInt8.le_iff_toNat_le.1 hb.2) hhigh
              exact ⟨b :: more, by simp, List.forall_mem_cons.2 ⟨⟨hlower, hupper⟩, hmore⟩⟩
          · obtain ⟨hbytes, -⟩ := Prod.mk.inj h
            exact ⟨[], by rw [List.append_nil, Chunk.broken.inj hbytes], by simp⟩

/-- A broken run is a first byte and bytes behind it that continue a form. -/
theorem next_broken_eq_cons {lead : UInt8} {bytes rest tail : List UInt8}
    (h : next lead rest = (.broken bytes, tail)) :
    ∃ more, bytes = lead :: more ∧ rest = more ++ tail ∧ ∀ b ∈ more, Continues b := by
  have hmore : ∃ more, bytes = lead :: more ∧ ∀ b ∈ more, Continues b := by
    rw [next] at h
    split at h
    · obtain ⟨hbytes, -⟩ := Prod.mk.inj h
      exact ⟨[], (Chunk.broken.inj hbytes).symm, by simp⟩
    · next o ho =>
        obtain ⟨hlow, hhigh⟩ := opening_bounds ho
        exact complete_broken hlow hhigh h
  obtain ⟨more, rfl, hcontinues⟩ := hmore
  have hspelled := next_bytes lead rest
  rw [h] at hspelled
  exact ⟨more, rfl, (List.cons.inj hspelled).2.symm, hcontinues⟩

/-- A byte of the ASCII range is a character by itself. -/
theorem next_ascii {lead : UInt8} (h : lead.toNat < 0x80) (rest : List UInt8) :
    next lead rest = (.char (Char.ofNat lead.toNat), rest) := by
  have ho : opening? lead = some ⟨lead.toNat, 0, 0x80, 0xbf⟩ := by
    rw [opening?, if_pos (UInt8.lt_iff_toNat_lt.2 h)]
  rw [next, ho]
  exact complete.eq_1 ..

/-- No byte of a broken run is in the ASCII range. -/
theorem next_broken {lead : UInt8} {bytes rest tail : List UInt8}
    (h : next lead rest = (.broken bytes, tail)) : ∀ b ∈ bytes, 0x80 ≤ b.toNat := by
  have hlead : 0x80 ≤ lead.toNat := by
    by_contra hlt
    rw [next_ascii (Nat.lt_of_not_le hlt)] at h
    cases h
  obtain ⟨more, rfl, -, hmore⟩ := next_broken_eq_cons h
  exact List.forall_mem_cons.2 ⟨hlead, fun b hb => (hmore b hb).1⟩

theorem broken_high {bytes run : List UInt8} (h : .broken run ∈ chunks bytes) :
    ∀ b ∈ run, 0x80 ≤ b.toNat := by
  induction bytes using chunks.induct with
  | case1 =>
      rw [chunks] at h
      cases h
  | case2 lead rest ih =>
      rw [chunks_cons] at h
      rcases List.mem_cons.1 h with heq | h
      · exact next_broken (Prod.ext heq.symm rfl)
      · exact ih h

/-- A byte of the ASCII range in the form of a character is all of this form. -/
theorem toNat_of_mem_encodeChar {c : Char} {b : UInt8} (hb : b.toNat < 0x80)
    (h : b ∈ String.utf8EncodeChar c) : c.toNat = b.toNat := by
  change c.val.toNat = b.toNat
  simp only [String.utf8EncodeChar] at h
  split at h
  · obtain rfl := List.mem_singleton.1 h
    rw [UInt8.toNat_ofNat']
    omega
  split at h
  · simp only [List.mem_cons, List.not_mem_nil, or_false] at h
    rcases h with rfl | rfl <;> rw [UInt8.toNat_ofNat'] at hb <;> omega
  split at h
  · simp only [List.mem_cons, List.not_mem_nil, or_false] at h
    rcases h with rfl | rfl | rfl <;> rw [UInt8.toNat_ofNat'] at hb <;> omega
  · simp only [List.mem_cons, List.not_mem_nil, or_false] at h
    rcases h with rfl | rfl | rfl | rfl <;> rw [UInt8.toNat_ofNat'] at hb <;> omega

theorem count_encodeChar (c : Char) :
    (String.utf8EncodeChar c).count 0x0a = [c].count '\n' := by
  by_cases hc : c = '\n'
  · rw [hc]
    decide
  · have hbyte : (0x0a : UInt8) ∉ String.utf8EncodeChar c := by
      intro hm
      have hcode : c.toNat = ('\n' : Char).toNat := toNat_of_mem_encodeChar (by decide) hm
      exact hc (Char.toNat_inj.1 hcode)
    rw [List.count_eq_zero.2 hbyte, List.count_eq_zero.2 (by simpa using Ne.symm hc)]

theorem count_chunk {bytes : List UInt8} {part : Chunk} (h : part ∈ chunks bytes) :
    part.bytes.count 0x0a = [part.shown].count '\n' := by
  cases part with
  | char c => exact count_encodeChar c
  | broken run =>
      have hbyte : (0x0a : UInt8) ∉ run := by
        intro hm
        have hhigh := broken_high h _ hm
        contradiction
      rw [Chunk.bytes, List.count_eq_zero.2 hbyte]
      rfl

/-- A text read from bytes has as many line feeds as the bytes. -/
theorem count_lossy (bytes : List UInt8) :
    (lossy bytes).toList.count '\n' = bytes.count 0x0a := by
  conv => rhs; rw [← flatMap_chunks bytes]
  rw [lossy, String.toList_ofList, List.map_eq_flatMap, List.count_flatMap, List.count_flatMap]
  refine congrArg List.sum (List.map_congr_left fun part hpart => ?_)
  exact (count_chunk hpart).symm

end TreeCompare.Utf8
