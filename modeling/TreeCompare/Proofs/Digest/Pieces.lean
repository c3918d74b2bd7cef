import TreeCompare.Snapshot.Fingerprint

/-!
# Digests of a content in pieces

After any pieces a hasher holds the lanes and the rest that the whole content so
far leaves, so the digest of a file does not depend on where its reads cut it.
-/
namespace TreeCompare

namespace Metro

theorem Lanes.block_append (l : Lanes) {a : List UInt8} (b : List UInt8)
    (h : blockSize ≤ a.length) : l.block (a ++ b) = l.block a := by
  have hs : blockSize = 32 := rfl
  have htake (i : Nat) (hi : i + 8 ≤ 32) :
      ((a ++ b).drop i).take 8 = (a.drop i).take 8 := by
    rw [List.drop_append_of_le_length (by omega),
      List.take_append_of_le_length (by rw [List.length_drop]; omega)]
  have h0 := htake 0 (by omega)
  rw [List.drop_zero, List.drop_zero] at h0
  rw [block, block, h0, htake 8 (by omega), htake 16 (by omega), htake 24 (by omega)]

theorem Lanes.blocks_append (n : Nat) (l : Lanes) (a b : List UInt8)
    (h : n * blockSize ≤ a.length) :
    blocks n l (a ++ b) = ((blocks n l a).1, (blocks n l a).2 ++ b) := by
  induction n generalizing l a with
  | zero => rfl
  | succ n ih =>
      rw [Nat.succ_mul] at h
      rw [blocks, blocks, block_append l b (by omega),
        List.drop_append_of_le_length (by omega)]
      exact ih _ _ (by rw [List.length_drop]; omega)

theorem Lanes.blocks_add (m n : Nat) (l : Lanes) (bytes : List UInt8) :
    blocks (m + n) l bytes = blocks n (blocks m l bytes).1 (blocks m l bytes).2 := by
  induction m generalizing l bytes with
  | zero => rw [Nat.zero_add, blocks]
  | succ m ih => rw [Nat.succ_add, blocks, ih, blocks]

theorem Lanes.blocks_rest (n : Nat) (l : Lanes) (bytes : List UInt8) :
    (blocks n l bytes).2 = bytes.drop (n * blockSize) := by
  induction n generalizing l bytes with
  | zero => simp [blocks]
  | succ n ih => rw [blocks, ih, List.drop_drop, Nat.succ_mul, Nat.add_comm]

/-- Bytes taken in after others are taken in behind the rest that those left. -/
theorem Lanes.absorb_append (l : Lanes) (a b : List UInt8) :
    (l.absorb a).1.absorb ((l.absorb a).2 ++ b) = l.absorb (a ++ b) := by
  have hs : blockSize = 32 := rfl
  have hle : a.length / blockSize * blockSize ≤ a.length := Nat.div_mul_le_self _ _
  have hcount : (a ++ b).length / blockSize =
      a.length / blockSize + (a.length % blockSize + b.length) / blockSize := by
    rw [List.length_append, hs]
    omega
  have hrest : ((l.absorb a).2 ++ b).length = a.length % blockSize + b.length := by
    rw [absorb, blocks_rest, List.length_append, List.length_drop, hs]
    omega
  rw [absorb, hrest, absorb, absorb, hcount, blocks_add, blocks_append _ _ _ _ hle]

/-- The hasher that has taken in a content, however it was cut. -/
def Hasher.after (content : List UInt8) : Hasher :=
  ⟨(Lanes.start.absorb content).1, (Lanes.start.absorb content).2, content.length⟩

theorem Hasher.start_eq : Hasher.start = Hasher.after [] := rfl

theorem Hasher.write_after (content piece : List UInt8) :
    (Hasher.after content).write piece = Hasher.after (content ++ piece) := by
  rw [write, after, after, Lanes.absorb_append, List.length_append]

theorem Hasher.finish_after (content : List UInt8) :
    (Hasher.after content).finish = digest content := rfl

end Metro

namespace Fingerprint

open Metro

theorem readAll_after (content : List UInt8) (pieces rest : List (List UInt8))
    (h : ∀ piece ∈ pieces, piece ≠ []) :
    readAll (.after content) content.length (pieces ++ [] :: rest) =
      ofContent (content ++ pieces.flatten) := by
  induction pieces generalizing content with
  | nil => simp [readAll, ofContent, Hasher.finish_after]
  | cons piece pieces ih =>
      obtain ⟨hp, hps⟩ := List.forall_mem_cons.1 h
      have hne : piece.isEmpty = false := by simpa using hp
      rw [List.cons_append, readAll, hne, Hasher.write_after, ← List.length_append]
      simpa using ih (content ++ piece) hps

/-- Reading any pieces up to the first empty one hashes their content at once. -/
theorem ofReads_eq (pieces rest : List (List UInt8)) (h : ∀ piece ∈ pieces, piece ≠ []) :
    ofReads (pieces ++ [] :: rest) = ofContent pieces.flatten := by
  rw [ofReads, Hasher.start_eq, ← List.nil_append pieces.flatten]
  exact readAll_after [] pieces rest h

theorem cut_ne_nil {n : Nat} {content piece : List UInt8}
    (h : n * pieceSize < content.length + pieceSize) (hp : piece ∈ cut n content) :
    piece ≠ [] := by
  have hpos : 0 < pieceSize := by decide
  induction n generalizing content with
  | zero => simp [cut] at hp
  | succ n ih =>
      rw [Nat.succ_mul] at h
      rw [cut] at hp
      rcases List.mem_cons.1 hp with rfl | hp
      · intro hnil
        have hlen := congrArg List.length hnil
        simp only [List.length_take, List.length_nil] at hlen
        omega
      · refine ih ?_ hp
        rw [List.length_drop]
        omega

theorem flatten_cut {n : Nat} {content : List UInt8} (h : content.length ≤ n * pieceSize) :
    (cut n content).flatten = content := by
  induction n generalizing content with
  | zero =>
      rw [Nat.zero_mul, Nat.le_zero, List.length_eq_zero_iff] at h
      rw [h, cut, List.flatten_nil]
  | succ n ih =>
      rw [Nat.succ_mul] at h
      rw [cut, List.flatten_cons, ih (by rw [List.length_drop]; omega), List.take_append_drop]

/-- A file that is read to its end has the fingerprint of its content. -/
theorem ofReads_reads (content : List UInt8) : ofReads (reads content) = ofContent content := by
  have hs : pieceSize = 4096 := rfl
  rw [reads, ofReads_eq, flatten_cut]
  · rw [hs]
    omega
  · refine fun piece hp => cut_ne_nil ?_ hp
    rw [hs]
    omega

end Fingerprint

end TreeCompare
