import TreeCompare.Digest.Metro
import TreeCompare.Text.Numeral

/-!
# Fingerprints

What two files are compared by: the digest of the content and its size. A file
is read in pieces; the reading ends with the first empty piece. Sizes are exact
natural numbers, and sums of them are not bounded by a word.
-/
namespace TreeCompare

open Metro

/-- The digest of a content and the number of its bytes. -/
structure Fingerprint where
  digest : Digest
  size : Nat
deriving DecidableEq, Repr

def Metro.Digest.text (digest : Digest) : String :=
  Numeral.hex 32 digest.value.toNat

namespace Fingerprint

def text (f : Fingerprint) : String :=
  "('" ++ f.digest.text ++ "', " ++ Numeral.decimal f.size ++ ")"

/-- Feeds the pieces up to the first empty one to a hasher and counts the bytes. -/
def readAll (hasher : Hasher) (size : Nat) : List (List UInt8) → Fingerprint
  | [] => ⟨hasher.finish, size⟩
  | piece :: more =>
      if piece.isEmpty then ⟨hasher.finish, size⟩
      else readAll (hasher.write piece) (size + piece.length) more

/-- The fingerprint of a file from the pieces that its reads returned. -/
def ofReads (pieces : List (List UInt8)) : Fingerprint := readAll .start 0 pieces

def pieceSize : Nat := 4096

/-- The first `n` pieces of a content, each but the last of full size. -/
def cut : (n : Nat) → List UInt8 → List (List UInt8)
  | 0, _ => []
  | n + 1, content => content.take pieceSize :: cut n (content.drop pieceSize)

/-- What reading a content to its end returns, the empty piece at the end included. -/
def reads (content : List UInt8) : List (List UInt8) :=
  cut ((content.length + (pieceSize - 1)) / pieceSize) content ++ [[]]

def ofContent (content : List UInt8) : Fingerprint :=
  ⟨Metro.digest content, content.length⟩

end Fingerprint

end TreeCompare
