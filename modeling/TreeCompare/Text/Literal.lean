import TreeCompare.Text.Combining
import TreeCompare.Text.Numeral
import TreeCompare.Text.Unassigned
import TreeCompare.Text.Utf8

/-!
# Literals

The form of a path in log events: between double quotes, with escapes for
quotes, backslashes, characters that do not show by themselves, code points
without a character and bytes that belong to no character.
-/
namespace TreeCompare.Literal

/-- Separators, format characters and private-use characters. -/
def invisible : Printable.Ranges :=
  [(0x00, 0x1f), (0x7f, 0xa0), (0xad, 0xad), (0x600, 0x605), (0x61c, 0x61c), (0x6dd, 0x6dd),
    (0x70f, 0x70f), (0x890, 0x891), (0x8e2, 0x8e2), (0x1680, 0x1680), (0x180e, 0x180e),
    (0x2000, 0x200f), (0x2028, 0x202f), (0x205f, 0x206f), (0x3000, 0x3000), (0xe000, 0xf8ff),
    (0xfeff, 0xfeff), (0xfff9, 0xfffb), (0x110bd, 0x110bd), (0x110cd, 0x110cd),
    (0x13430, 0x1343f), (0x1bca0, 0x1bca3), (0x1d173, 0x1d17a), (0xe0001, 0x10ffff)]

def escapeCode (c : Char) : List Char :=
  ['\\', 'u', '\x7b'] ++ (Numeral.shortHex c.toNat).toList ++ ['\x7d']

def writeChar (c : Char) : List Char :=
  if c = '\x00' then ['\\', '0']
  else if c = '\t' then ['\\', 't']
  else if c = '\r' then ['\\', 'r']
  else if c = '\n' then ['\\', 'n']
  else if c = '\\' ∨ c = '"' ∨ c = '\'' then ['\\', c]
  else if [Printable.combining, Printable.unassigned, invisible].any (Printable.Ranges.contains · c)
  then escapeCode c
  else [c]

def writeByte (b : UInt8) : List Char :=
  ['\\', 'x'] ++ (Numeral.hexDigits 2 b.toNat).map Char.toUpper

def writeChunk : Utf8.Chunk → List Char
  | .char c => writeChar c
  | .broken bytes => bytes.flatMap writeByte

/-- The literal of a byte string. -/
def write (bytes : List UInt8) : String :=
  String.ofList ('"' :: (Utf8.chunks bytes).flatMap writeChunk ++ ['"'])

end TreeCompare.Literal
