/-!
# Byte strings

The machine's strings are byte strings: nothing forces them to be well-formed
text, and the messages that quote them are byte strings too. This module holds
the type, the bytes of a literal, and numerals written in a base.
-/

namespace CZero

/-- A byte string. -/
abbrev Bytes := List UInt8

/-- The bytes of a text in UTF-8. -/
def utf8 (s : String) : Bytes :=
  s.toUTF8.data.toList

/-- The numeral of `n` in base `base` (at most 16), lower case, without leading zeros. -/
def numeral (base n : Nat) : Bytes :=
  (Nat.toDigits base n).map Char.toUInt8

/-- The decimal numeral of an integer, with a sign only if it is negative. -/
def decimal (n : Int) : Bytes :=
  match n with
  | .ofNat k => numeral 10 k
  | .negSucc k => utf8 "-" ++ numeral 10 (k + 1)

/-- The lower-case hexadecimal numeral of `n`, without leading zeros. -/
def hex (n : Nat) : Bytes :=
  numeral 16 n

/-- The upper-case form of an ASCII letter; other bytes stay. -/
def upperByte (b : UInt8) : UInt8 :=
  if 0x61 ≤ b ∧ b ≤ 0x7a then b - 0x20 else b

/-- The upper-case hexadecimal numeral of `n`, without leading zeros. -/
def upperHex (n : Nat) : Bytes :=
  (numeral 16 n).map upperByte

/-- Zeros in front of `bs`, up to the length `width`. -/
def zeroPad (width : Nat) (bs : Bytes) : Bytes :=
  List.replicate (width - bs.length) 0x30 ++ bs

/-- The two hexadecimal digits of a byte. -/
def hexByte (b : UInt8) : Bytes :=
  zeroPad 2 (hex b.toNat)

/-- The longest front part of `bs` without `b`. -/
def Bytes.before (b : UInt8) (bs : Bytes) : Bytes :=
  bs.takeWhile (· != b)

/-- `bs` without the single byte `b` at its end, if it is there. -/
def Bytes.dropEnd (b : UInt8) (bs : Bytes) : Bytes :=
  if bs.getLast? = some b then bs.dropLast else bs

end CZero
