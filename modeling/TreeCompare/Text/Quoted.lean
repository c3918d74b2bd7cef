import TreeCompare.Text.Numeral
import TreeCompare.Text.Printable
import TreeCompare.Text.Utf8

/-!
# Quoted names

The quoted form of a file name stands on one line and can be read back. A name
is quoted with single quotes, or with double quotes if it holds a single quote
and no double quote. Inside, a backslash, the quote itself and every character
that is not printable are escaped; a byte that belongs to no character shows
as the code point U+DC00 plus its value, which no character has.
-/
namespace TreeCompare.Quoted

/-- A character of a name, or a byte of it that belongs to no character. -/
inductive Piece
  | char (c : Char)
  | stray (byte : UInt8)
deriving DecidableEq, Repr

def Piece.ofChunk : Utf8.Chunk → List Piece
  | .char c => [.char c]
  | .broken bytes => bytes.map .stray

def pieces (name : List UInt8) : List Piece :=
  (Utf8.chunks name).flatMap Piece.ofChunk

def Piece.bytes : Piece → List UInt8
  | .char c => String.utf8EncodeChar c
  | .stray byte => [byte]

/-- The escape of a code point: two, four or eight digits as it needs. -/
def escapeCode (code : Nat) : List Char :=
  if code < 0x100 then '\\' :: 'x' :: Numeral.hexDigits 2 code
  else if code < 0x10000 then '\\' :: 'u' :: Numeral.hexDigits 4 code
  else '\\' :: 'U' :: Numeral.hexDigits 8 code

def Piece.written (quote : Char) : Piece → List Char
  | .stray byte => escapeCode (0xdc00 + byte.toNat)
  | .char c =>
      if c = '\\' then ['\\', '\\']
      else if c = '\n' then ['\\', 'n']
      else if c = '\r' then ['\\', 'r']
      else if c = '\t' then ['\\', 't']
      else if c = quote then ['\\', c]
      else if Printable.isPrintable c then [c]
      else escapeCode c.toNat

/-- The quote for a name with these pieces. -/
def delimiter (ps : List Piece) : Char :=
  if .char '\'' ∈ ps ∧ .char '"' ∉ ps then '"' else '\''

def quoteChars (name : List UInt8) : List Char :=
  let ps := pieces name
  let quote := delimiter ps
  quote :: ps.flatMap (Piece.written quote) ++ [quote]

def quote (name : List UInt8) : String := String.ofList (quoteChars name)

end TreeCompare.Quoted
