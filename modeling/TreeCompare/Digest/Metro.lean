/-!
# MetroHash128

The 128-bit MetroHash digest with seed zero, in two forms. `digest` hashes a
whole byte string at once: full blocks of 32 bytes, then the rest of it in
steps of 16, 8, 4, 2 and 1 bytes, then a last mixing. A `Hasher` takes the
bytes in pieces and keeps what does not fill a block until more arrives.
Words are read with the lowest byte first; all arithmetic is modulo 2^64.
-/
namespace TreeCompare.Metro

def k0 : UInt64 := 0xc83a91e1
def k1 : UInt64 := 0x8648dbdb
def k2 : UInt64 := 0x7bdec03b
def k3 : UInt64 := 0x2f5870a5

/-- Bits in one word, bytes in one block. -/
def wordBits : UInt64 := 64
def blockSize : Nat := 32

/-- Turns a word to the right by `n` bits, for `n` below the size of a word. -/
def rotate (w n : UInt64) : UInt64 := (w >>> n) ||| (w <<< (wordBits - n))

/-- The number that bytes spell with the lowest first. -/
def word (bytes : List UInt8) : UInt64 :=
  bytes.foldr (fun b w => w * 256 + b.toUInt64) 0

/-- The four accumulators. -/
structure Lanes where
  v0 : UInt64
  v1 : UInt64
  v2 : UInt64
  v3 : UInt64
deriving DecidableEq, Repr

/-- A finished 128-bit hash. -/
structure Digest where
  value : BitVec 128
deriving DecidableEq, Repr

namespace Lanes

/-- The accumulators for seed zero. -/
def start : Lanes :=
  ⟨(0 - k0) * k3, (0 + k1) * k2, (0 + k0) * k2, (0 - k1) * k3⟩

def block (l : Lanes) (bytes : List UInt8) : Lanes :=
  let v0 := rotate (l.v0 + word (bytes.take 8) * k0) 29 + l.v2
  let v1 := rotate (l.v1 + word ((bytes.drop 8).take 8) * k1) 29 + l.v3
  let v2 := rotate (l.v2 + word ((bytes.drop 16).take 8) * k2) 29 + v0
  let v3 := rotate (l.v3 + word ((bytes.drop 24).take 8) * k3) 29 + v1
  ⟨v0, v1, v2, v3⟩

/-- Takes in `n` blocks and returns the bytes after them. -/
def blocks : (n : Nat) → Lanes → List UInt8 → Lanes × List UInt8
  | 0, l, bytes => (l, bytes)
  | n + 1, l, bytes => blocks n (l.block bytes) (bytes.drop blockSize)

/-- Takes in all full blocks and returns the bytes after them. -/
def absorb (l : Lanes) (bytes : List UInt8) : Lanes × List UInt8 :=
  blocks (bytes.length / blockSize) l bytes

def fold (l : Lanes) : Lanes :=
  let v2 := l.v2 ^^^ rotate ((l.v0 + l.v3) * k0 + l.v1) 21 * k1
  let v3 := l.v3 ^^^ rotate ((l.v1 + v2) * k1 + l.v0) 21 * k0
  let v0 := l.v0 ^^^ rotate ((l.v0 + v2) * k0 + v3) 21 * k1
  let v1 := l.v1 ^^^ rotate ((l.v1 + v3) * k1 + v2) 21 * k0
  ⟨v0, v1, v2, v3⟩

end Lanes

/-- The two words that the last steps work on. -/
structure Pair where
  v0 : UInt64
  v1 : UInt64
deriving DecidableEq, Repr

namespace Pair

def take16 (p : Pair) (bytes : List UInt8) : Pair :=
  let v0 := rotate (p.v0 + word (bytes.take 8) * k2) 33 * k3
  let v1 := rotate (p.v1 + word ((bytes.drop 8).take 8) * k2) 33 * k3
  let v0 := v0 ^^^ rotate (v0 * k2 + v1) 45 * k1
  let v1 := v1 ^^^ rotate (v1 * k3 + v0) 45 * k0
  ⟨v0, v1⟩

/-- Takes a word into the first half, with the turn of its size. -/
def first (p : Pair) (w turn : UInt64) : Pair :=
  let v0 := rotate (p.v0 + w * k2) 33 * k3
  ⟨v0 ^^^ rotate (v0 * k2 + p.v1) turn * k1, p.v1⟩

/-- Takes a word into the second half, with the turn of its size. -/
def second (p : Pair) (w turn : UInt64) : Pair :=
  let v1 := rotate (p.v1 + w * k2) 33 * k3
  ⟨p.v0, v1 ^^^ rotate (v1 * k3 + p.v0) turn * k0⟩

/-- Takes `size` bytes in with `step` if so many are left. -/
def stage (size : Nat) (step : Pair → List UInt8 → Pair)
    (s : Pair × List UInt8) : Pair × List UInt8 :=
  if size ≤ s.2.length then (step s.1 (s.2.take size), s.2.drop size) else s

/-- Takes in the fewer than 32 bytes after the last full block. -/
def tail (p : Pair) (bytes : List UInt8) : Pair :=
  let s := stage 16 take16 (p, bytes)
  let s := stage 8 (fun p b => p.first (word b) 27) s
  let s := stage 4 (fun p b => p.second (word b) 46) s
  let s := stage 2 (fun p b => p.first (word b) 22) s
  let s := stage 1 (fun p b => p.second (word b) 58) s
  s.1

/-- The last mixing; the first word is the high half of the digest. -/
def finish (p : Pair) : Digest :=
  let v0 := p.v0 + rotate (p.v0 * k0 + p.v1) 13
  let v1 := p.v1 + rotate (p.v1 * k1 + v0) 37
  let v0 := v0 + rotate (v0 * k2 + v1) 13
  let v1 := v1 + rotate (v1 * k3 + v0) 37
  ⟨v0.toBitVec ++ v1.toBitVec⟩

end Pair

/-- The digest of `count` bytes from the lanes after the full blocks and the rest. -/
def close (count : Nat) (l : Lanes) (rest : List UInt8) : Digest :=
  let l := if blockSize ≤ count then l.fold else l
  (Pair.tail ⟨l.v0, l.v1⟩ rest).finish

def digest (bytes : List UInt8) : Digest :=
  let s := Lanes.start.absorb bytes
  close bytes.length s.1 s.2

/-- A digest under way: the lanes after the full blocks, the bytes kept for the
next block, and how many bytes there were. -/
structure Hasher where
  lanes : Lanes
  kept : List UInt8
  count : Nat
deriving DecidableEq, Repr

namespace Hasher

def start : Hasher := ⟨.start, [], 0⟩

/-- Adds one piece. -/
def write (h : Hasher) (piece : List UInt8) : Hasher :=
  let s := h.lanes.absorb (h.kept ++ piece)
  ⟨s.1, s.2, h.count + piece.length⟩

def finish (h : Hasher) : Digest := close h.count h.lanes h.kept

end Hasher

end TreeCompare.Metro
