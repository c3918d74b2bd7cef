/-!
# Printable characters

A character is printable if it shows as ink or is the plain space: not a
control character, not any other white space, and not one of the invisible
format and private-use characters. The white space is Unicode's White_Space
property and the controls are its category Cc.
-/
namespace TreeCompare.Printable

/-- A set of code points as inclusive ranges. -/
abbrev Ranges := List (Nat × Nat)

def Ranges.contains (ranges : Ranges) (c : Char) : Bool :=
  ranges.any fun r => r.1 ≤ c.toNat && c.toNat ≤ r.2

/-- The property White_Space. -/
def whiteSpace : Ranges :=
  [(0x09, 0x0d), (0x20, 0x20), (0x85, 0x85), (0xa0, 0xa0), (0x1680, 0x1680),
    (0x2000, 0x200a), (0x2028, 0x2029), (0x202f, 0x202f), (0x205f, 0x205f), (0x3000, 0x3000)]

/-- The category Cc. -/
def control : Ranges := [(0x00, 0x1f), (0x7f, 0x9f)]

/-- Format and private-use characters, and everything from plane 15 on. -/
def hidden : Ranges :=
  [(0xad, 0xad), (0x600, 0x605), (0x61c, 0x61c), (0x6dd, 0x6dd), (0x70f, 0x70f),
    (0x180e, 0x180e), (0x200b, 0x200f), (0x202a, 0x202e), (0x2060, 0x206f),
    (0xe000, 0xf8ff), (0xfeff, 0xfeff), (0xfff9, 0xfffb), (0xe0001, 0xe007f),
    (0xf0000, 0x10ffff)]

/-- Whether a character may stand in a printed line as it is. -/
def isPrintable (c : Char) : Bool :=
  c == ' ' || !(control.contains c || whiteSpace.contains c || hidden.contains c)

end TreeCompare.Printable
