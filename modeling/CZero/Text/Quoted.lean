import CZero.Text.Printable

/-!
# Quoted text

How a message shows a byte string between double quotes: a printable character
as it is, the usual control characters by their letter, any other character by
its number, and a stray byte by its two hexadecimal digits.
-/

namespace CZero.Text

open Utf8 (Piece)

/-- The letter that stands for a control character after a backslash. -/
def escapeLetter? (c : Char) : Option String :=
  match c.toNat with
  | 0x07 => some "a"
  | 0x08 => some "b"
  | 0x0C => some "f"
  | 0x0A => some "n"
  | 0x0D => some "r"
  | 0x09 => some "t"
  | 0x0B => some "v"
  | _ => none

/-- A character inside quotes. -/
def quoteChar (c : Char) : Bytes :=
  if c = '"' ∨ c = '\\' then utf8 "\\" ++ Utf8.encode c
  else if isPrintable c then Utf8.encode c
  else match escapeLetter? c with
    | some l => utf8 "\\" ++ utf8 l
    | none =>
      if c.toNat < 0x20 ∨ c.toNat = 0x7F then utf8 "\\x" ++ zeroPad 2 (hex c.toNat)
      else if c.toNat < 0x10000 then utf8 "\\u" ++ zeroPad 4 (hex c.toNat)
      else utf8 "\\U" ++ zeroPad 8 (hex c.toNat)

/-- A piece inside quotes. -/
def quotePiece : Piece → Bytes
  | .char c => quoteChar c
  | .stray b => utf8 "\\x" ++ hexByte b

/-- A byte string between double quotes. -/
def quote (bs : Bytes) : Bytes :=
  utf8 "\"" ++ (Utf8.pieces bs).flatMap quotePiece ++ utf8 "\""

end CZero.Text
