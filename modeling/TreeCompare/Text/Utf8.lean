/-!
# UTF-8 with broken bytes

A byte string is read as characters and broken runs. A broken run is the
longest beginning of a character that the byte after it does not continue, or
one byte that begins no character, so a well-formed character is never hidden
in one. The text form keeps the characters and puts one replacement character
for each broken run.
-/
namespace TreeCompare.Utf8

/-- One part of a byte string: a character, or a run of bytes that encodes none. -/
inductive Chunk
  | char (c : Char)
  | broken (bytes : List UInt8)
deriving DecidableEq, Repr

/-- A character whose lead byte has been read: the bits so far, how many bytes
are still wanted, and the range in which the next of them must lie. -/
structure Opening where
  bits : Nat
  wanted : Nat
  low : UInt8
  high : UInt8
deriving DecidableEq, Repr

/-- What a lead byte opens. The ranges leave out overlong forms, surrogates and
code points above U+10FFFF. -/
def opening? (lead : UInt8) : Option Opening :=
  if lead < 0x80 then some ⟨lead.toNat, 0, 0x80, 0xbf⟩
  else if lead < 0xc2 then none
  else if lead < 0xe0 then some ⟨lead.toNat - 0xc0, 1, 0x80, 0xbf⟩
  else if lead < 0xf0 then
    some ⟨lead.toNat - 0xe0, 2, if lead = 0xe0 then 0xa0 else 0x80,
      if lead = 0xed then 0x9f else 0xbf⟩
  else if lead < 0xf5 then
    some ⟨lead.toNat - 0xf0, 3, if lead = 0xf0 then 0x90 else 0x80,
      if lead = 0xf4 then 0x8f else 0xbf⟩
  else none

/-- Reads the bytes that an opening still wants. -/
def complete (read : List UInt8) : (bits wanted : Nat) → (low high : UInt8) →
    List UInt8 → Chunk × List UInt8
  | bits, 0, _, _, rest => (.char (Char.ofNat bits), rest)
  | _, _ + 1, _, _, [] => (.broken read, [])
  | bits, n + 1, low, high, b :: rest =>
      if low ≤ b ∧ b ≤ high then
        complete (read ++ [b]) (bits * 64 + (b.toNat - 0x80)) n 0x80 0xbf rest
      else (.broken read, b :: rest)

/-- The first part of a byte string that begins with `lead`, and what is left. -/
def next (lead : UInt8) (rest : List UInt8) : Chunk × List UInt8 :=
  match opening? lead with
  | none => (.broken [lead], rest)
  | some o => complete [lead] o.bits o.wanted o.low o.high rest

theorem complete_length_le (read : List UInt8) (bits wanted : Nat) (low high : UInt8)
    (rest : List UInt8) :
    (complete read bits wanted low high rest).2.length ≤ rest.length := by
  induction rest generalizing read bits wanted low high with
  | nil => cases wanted <;> simp [complete]
  | cons b rest ih =>
      cases wanted with
      | zero => simp [complete]
      | succ n =>
          rw [complete]
          split
          · exact Nat.le_succ_of_le (ih ..)
          · exact Nat.le_refl _

theorem next_length_le (lead : UInt8) (rest : List UInt8) :
    (next lead rest).2.length ≤ rest.length := by
  unfold next
  split
  · exact Nat.le_refl _
  · exact complete_length_le ..

/-- The parts of a byte string in order. -/
def chunks : List UInt8 → List Chunk
  | [] => []
  | lead :: rest => (next lead rest).1 :: chunks (next lead rest).2
termination_by bytes => bytes.length
decreasing_by exact Nat.lt_succ_of_le (next_length_le lead rest)

def encode (text : String) : List UInt8 :=
  text.toList.flatMap String.utf8EncodeChar

def Chunk.bytes : Chunk → List UInt8
  | .char c => String.utf8EncodeChar c
  | .broken bytes => bytes

/-- The character a part shows as; a broken run shows as U+FFFD. -/
def Chunk.shown : Chunk → Char
  | .char c => c
  | .broken _ => '\ufffd'

def lossy (bytes : List UInt8) : String :=
  String.ofList ((chunks bytes).map Chunk.shown)

/-- The text of a byte string without broken runs. -/
def decode? (bytes : List UInt8) : Option String :=
  String.ofList <$> (chunks bytes).mapM fun
    | .char c => some c
    | .broken _ => none

end TreeCompare.Utf8
