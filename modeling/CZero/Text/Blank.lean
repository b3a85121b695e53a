import CZero.Text.Utf8

/-!
# Blanks and fields

A field of a byte string is a longest run without white space. White space is
what the White_Space property of characters says; a stray byte is none.
-/

namespace CZero.Text

open Utf8 (Piece)

/-- White space: U+0009 to U+000D, the space, U+0085, U+00A0 and the spaces and
    separators of the general punctuation and ideographic blocks. -/
def isBlank (c : Char) : Bool :=
  let n := c.toNat
  (0x09 ≤ n && n ≤ 0x0D) || n == 0x20 || n == 0x85 || n == 0xA0 || n == 0x1680
    || (0x2000 ≤ n && n ≤ 0x200A) || n == 0x2028 || n == 0x2029 || n == 0x202F
    || n == 0x205F || n == 0x3000

/-- Whether a piece of text is white space. -/
def isBlankPiece : Piece → Bool
  | .char c => isBlank c
  | .stray _ => false

/-- A field read so far (reversed) put in front of the fields found so far. -/
def closeField (cur : List Piece) (done : List Bytes) : List Bytes :=
  if cur.isEmpty then done else cur.reverse.flatMap Piece.bytes :: done

/-- The fields among the pieces `ps`, after the field `cur` (reversed) that is
    being read and the fields `done` (reversed). -/
def fieldsAux (cur : List Piece) (done : List Bytes) : List Piece → List Bytes
  | [] => (closeField cur done).reverse
  | p :: ps =>
    if isBlankPiece p then fieldsAux [] (closeField cur done) ps
    else fieldsAux (p :: cur) done ps

/-- The fields of a byte string, in order. -/
def fields (bs : Bytes) : List Bytes :=
  fieldsAux [] [] (Utf8.pieces bs)

end CZero.Text
