/-!
# Numerals

Decimal numbers without a sign or leading zeros, signed decimals, and
hexadecimal numbers of a fixed width in lowercase digits.
-/
namespace TreeCompare.Numeral

/-- The decimal digits of a number, `0` for zero. -/
def decimal (n : Nat) : String := String.ofList (Nat.toDigits 10 n)

/-- A decimal with a minus sign in front of a negative number. -/
def signed : Int → String
  | .ofNat n => decimal n
  | .negSucc n => "-" ++ decimal (n + 1)

/-- The last `width` hexadecimal digits of a number, highest first. -/
def hexDigits : (width : Nat) → Nat → List Char
  | 0, _ => []
  | width + 1, n => hexDigits width (n / 16) ++ [Nat.digitChar (n % 16)]

/-- A hexadecimal number padded with zeros to `width` digits. -/
def hex (width n : Nat) : String := String.ofList (hexDigits width n)

/-- The hexadecimal digits of a number without leading zeros, `0` for zero. -/
def shortHex (n : Nat) : String := String.ofList (Nat.toDigits 16 n)

/-- The text filled up with spaces on the left to `width` characters. -/
def padLeft (width : Nat) (text : String) : String :=
  String.ofList (List.replicate (width - text.length) ' ') ++ text

end TreeCompare.Numeral
