import Mathlib.Algebra.Ring.Nat
import Mathlib.Data.List.Induction
import TreeCompare.Proofs.Digest.Pieces

/-!
# A hasher with a buffer of one block

Bytes that do not fill a block wait in a buffer. A piece first fills the buffer up; if
it completes a block the further full blocks are taken straight from the piece, and
only what is left of it goes to the buffer. Each write leaves the same as taking the
kept bytes and the piece as one string, so the digest of a content is the same for all
ways to cut it.
-/
namespace TreeCompare

namespace Metro

theorem Lanes.absorb_short (l : Lanes) {bytes : List UInt8} (h : bytes.length < blockSize) :
    l.absorb bytes = (l, bytes) := by
  rw [absorb, Nat.div_eq_of_lt h, blocks]

theorem Lanes.absorb_block (l : Lanes) {bytes : List UInt8} (h : bytes.length = blockSize) :
    l.absorb bytes = (l.block bytes, []) := by
  have hone : bytes.length / blockSize = 1 := by
    rw [h]
    rfl
  rw [absorb, hone, blocks, blocks, ← h, List.drop_length]

theorem Lanes.length_absorb_rest (l : Lanes) (bytes : List UInt8) :
    (l.absorb bytes).2.length = bytes.length % blockSize := by
  rw [absorb, blocks_rest, List.length_drop, Nat.mod_eq_sub_div_mul]

namespace Hasher

/-- How many bytes of the block under way are missing. -/
def room (h : Hasher) : Nat := blockSize - h.count % blockSize

/-- Takes full blocks straight from the bytes and keeps what is left of them. -/
def bulk (l : Lanes) (count : Nat) (bytes : List UInt8) : Hasher :=
  ⟨(l.absorb bytes).1, (l.absorb bytes).2, count + bytes.length⟩

/-- Adds one piece through the buffer. -/
def fill (h : Hasher) (piece : List UInt8) : Hasher :=
  if h.count % blockSize = 0 then bulk h.lanes h.count piece
  else if piece.length < h.room then ⟨h.lanes, h.kept ++ piece, h.count + piece.length⟩
  else
    bulk (h.lanes.block (h.kept ++ piece.take h.room)) (h.count + h.room)
      (piece.drop h.room)

/-- The count says how many bytes are kept. -/
def Aligned (h : Hasher) : Prop := h.kept.length = h.count % blockSize

theorem aligned_after (content : List UInt8) : (Hasher.after content).Aligned :=
  Lanes.length_absorb_rest _ _

theorem write_of_kept_nil {h : Hasher} (hk : h.kept = []) (piece : List UInt8) :
    h.write piece = bulk h.lanes h.count piece := by
  rw [write, bulk, hk, List.nil_append]

theorem write_of_short {h : Hasher} {piece : List UInt8}
    (hlen : (h.kept ++ piece).length < blockSize) :
    h.write piece = ⟨h.lanes, h.kept ++ piece, h.count + piece.length⟩ := by
  rw [write, Lanes.absorb_short _ hlen]

theorem write_of_block {h : Hasher} {front : List UInt8} (back : List UInt8)
    (hlen : (h.kept ++ front).length = blockSize) :
    h.write (front ++ back) =
      bulk (h.lanes.block (h.kept ++ front)) (h.count + front.length) back := by
  have hsplit := Lanes.absorb_append h.lanes (h.kept ++ front) back
  rw [Lanes.absorb_block _ hlen, List.nil_append, List.append_assoc] at hsplit
  rw [write, bulk, ← hsplit, List.length_append, Nat.add_assoc]

theorem fill_eq_write {h : Hasher} (ha : h.Aligned) (piece : List UInt8) :
    h.fill piece = h.write piece := by
  have hlt : h.count % blockSize < blockSize := Nat.mod_lt _ (by decide)
  have hkept : h.kept.length + h.room = blockSize := by
    rw [ha, room]
    omega
  unfold fill
  split_ifs with hzero hroom
  -- nothing is kept, so the piece begins a block
  · have hnil : h.kept = [] := List.length_eq_zero_iff.1 (ha.trans hzero)
    exact (write_of_kept_nil hnil piece).symm
  -- the piece does not complete the block
  · refine (write_of_short ?_).symm
    rw [List.length_append]
    omega
  -- the front of the piece completes the block
  · have htake : (piece.take h.room).length = h.room := by
      rw [List.length_take]
      omega
    have hfull : (h.kept ++ piece.take h.room).length = blockSize := by
      rw [List.length_append, htake, hkept]
    have hblock := write_of_block (piece.drop h.room) hfull
    rw [List.take_append_drop, htake] at hblock
    exact hblock.symm

theorem fill_after (content piece : List UInt8) :
    (Hasher.after content).fill piece = Hasher.after (content ++ piece) := by
  rw [fill_eq_write (aligned_after content), write_after]

/-- After any pieces a hasher holds what their whole content leaves. -/
theorem foldl_eq_after {step : Hasher → List UInt8 → Hasher}
    (hstep : ∀ content piece, step (.after content) piece = .after (content ++ piece))
    (pieces : List (List UInt8)) : pieces.foldl step start = .after pieces.flatten := by
  induction pieces using List.reverseRecOn with
  | nil => rfl
  | append_singleton pieces piece ih =>
      rw [List.foldl_append, ih, List.foldl_cons, List.foldl_nil, hstep, List.flatten_append,
        List.flatten_singleton]

/-- The two words that a digest is put together from. -/
def words (h : Hasher) : Pair :=
  let l := if blockSize ≤ h.count then h.lanes.fold else h.lanes
  let p := Pair.tail ⟨l.v0, l.v1⟩ h.kept
  let v0 := p.v0 + rotate (p.v0 * k0 + p.v1) 13
  let v1 := p.v1 + rotate (p.v1 * k1 + v0) 37
  let v0 := v0 + rotate (v0 * k2 + v1) 13
  ⟨v0, v1 + rotate (v1 * k3 + v0) 37⟩

/-- The first word is the high half. -/
theorem finish_eq_words (h : Hasher) :
    h.finish.value.toNat = h.words.v0.toNat * 2 ^ 64 + h.words.v1.toNat := by
  have hvalue : h.finish.value = h.words.v0.toBitVec ++ h.words.v1.toBitVec := rfl
  rw [hvalue, BitVec.toNat_append, ← Nat.shiftLeft_add_eq_or_of_lt h.words.v1.toBitVec.isLt,
    Nat.shiftLeft_eq]
  rfl

end Hasher

end Metro

namespace Fingerprint

open Metro

/-- However a content is cut into pieces, reading them up to the empty one at the end
counts its bytes and hashes them at once. The hasher may as well fill a buffer: it goes
through the same states, and never has a whole block waiting. -/
theorem ofReads_pieces {content : List UInt8} {pieces : List (List UInt8)}
    (hne : ∀ piece ∈ pieces, piece ≠ []) (hcut : pieces.flatten = content) :
    let filled := pieces.foldl Hasher.fill .start
    ofReads (pieces ++ [[]]) = ⟨Metro.digest content, content.length⟩ ∧
    filled.finish = Metro.digest content ∧
    filled.count = content.length ∧
    (Hasher.start.fill content).finish = Metro.digest content ∧
    (Metro.digest content).value.toNat =
      filled.words.v0.toNat * 2 ^ 64 + filled.words.v1.toNat ∧
    (∀ front, front <+: pieces →
      front.foldl Hasher.fill .start = front.foldl Hasher.write .start ∧
      (front.foldl Hasher.fill .start).kept.length < blockSize ∧
      (front.foldl Hasher.fill .start).count = front.flatten.length ∧
      front.flatten.length ≤ content.length) ∧
    (∀ pieces', (∀ piece ∈ pieces', piece ≠ []) → pieces'.flatten = content →
      ofReads (pieces' ++ [[]]) = ofReads (pieces ++ [[]])) ∧
    ofReads (reads content) = ofReads (pieces ++ [[]]) := by
  intro filled
  have hfilled : filled = .after content :=
    (Hasher.foldl_eq_after Hasher.fill_after pieces).trans (congrArg Hasher.after hcut)
  have hdigest : filled.finish = Metro.digest content := by rw [hfilled, Hasher.finish_after]
  have hone : Hasher.start.fill content = .after content := Hasher.fill_after [] content
  refine ⟨by rw [ofReads_eq _ _ hne, hcut, ofContent], hdigest, by rw [hfilled]; rfl,
    by rw [hone, Hasher.finish_after], by rw [← hdigest, Hasher.finish_eq_words], ?_, ?_, ?_⟩
  · rintro front ⟨back, rfl⟩
    have hfront := Hasher.foldl_eq_after Hasher.fill_after front
    refine ⟨by rw [hfront, Hasher.foldl_eq_after Hasher.write_after], ?_, by rw [hfront]; rfl, ?_⟩
    · rw [hfront, Hasher.aligned_after]
      exact Nat.mod_lt _ (by decide)
    · rw [← hcut, List.flatten_append, List.length_append]
      exact Nat.le_add_right _ _
  · intro pieces' hne' hcut'
    rw [ofReads_eq _ _ hne, ofReads_eq _ _ hne', hcut, hcut']
  · rw [ofReads_eq _ _ hne, hcut, ofReads_reads]

theorem ofReads_pieces_unaligned :
    ofReads ([List.replicate 20 1, List.replicate 30 2] ++ [[]]) =
      ofReads (reads (List.replicate 20 1 ++ List.replicate 30 2)) := by
  have hne : ∀ piece ∈ [List.replicate 20 (1 : UInt8), List.replicate 30 2], piece ≠ [] := by
    decide
  obtain ⟨-, -, -, -, -, -, -, hreads⟩ := ofReads_pieces hne rfl
  exact hreads.symm

end Fingerprint

end TreeCompare
