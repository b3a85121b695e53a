import CZero.Text.Bytes

/-!
# UTF-8

A byte string is read as a sequence of *pieces*: a character for every
well-formed encoding (shortest form, no surrogates, at most U+10FFFF), and a
stray byte wherever none starts. The pieces cover the bytes (`Piece.bytes`), so
that whatever is done piece by piece is done to the whole string.
-/

namespace CZero.Utf8

/-- One step of reading a byte string as text. -/
inductive Piece where
  /-- A well-formed character. -/
  | char (c : Char)
  /-- A byte at which no well-formed character starts. -/
  | stray (b : UInt8)
deriving DecidableEq, Repr

/-- The encoding of a character. -/
def encode (c : Char) : Bytes :=
  let n := c.toNat
  if n < 0x80 then [n.toUInt8]
  else if n < 0x800 then [(0xC0 + n / 64).toUInt8, (0x80 + n % 64).toUInt8]
  else if n < 0x10000 then
    [(0xE0 + n / 4096).toUInt8, (0x80 + n / 64 % 64).toUInt8, (0x80 + n % 64).toUInt8]
  else
    [(0xF0 + n / 262144).toUInt8, (0x80 + n / 4096 % 64).toUInt8,
      (0x80 + n / 64 % 64).toUInt8, (0x80 + n % 64).toUInt8]

/-- The bytes that a piece stands for. -/
def Piece.bytes : Piece → Bytes
  | .char c => encode c
  | .stray b => [b]

/-- The character of a piece, if it is one. -/
def Piece.char? : Piece → Option Char
  | .char c => some c
  | .stray _ => none

/-- A byte of the form 10xxxxxx. -/
def isTail (b : UInt8) : Bool :=
  0x80 ≤ b && b ≤ 0xBF

/-- The six bits that a tail byte carries. -/
def tailBits (b : UInt8) : Nat :=
  b.toNat % 64

/-- The character that the two bytes encode, if they do. -/
def two? (a b : UInt8) : Option Char :=
  if 0xC2 ≤ a && a ≤ 0xDF && isTail b then
    some (Char.ofNat (a.toNat % 32 * 64 + tailBits b))
  else none

/-- The character that the three bytes encode, if they do: the second byte
    rules out overlong forms and surrogates. -/
def three? (a b c : UInt8) : Option Char :=
  if 0xE0 ≤ a && a ≤ 0xEF && isTail b && isTail c
      && (a != 0xE0 || 0xA0 ≤ b) && (a != 0xED || b ≤ 0x9F) then
    some (Char.ofNat (a.toNat % 16 * 4096 + tailBits b * 64 + tailBits c))
  else none

/-- The character that the four bytes encode, if they do: the second byte
    rules out overlong forms and values beyond U+10FFFF. -/
def four? (a b c d : UInt8) : Option Char :=
  if 0xF0 ≤ a && a ≤ 0xF4 && isTail b && isTail c && isTail d
      && (a != 0xF0 || 0x90 ≤ b) && (a != 0xF4 || b ≤ 0x8F) then
    some (Char.ofNat (a.toNat % 8 * 262144 + tailBits b * 4096 + tailBits c * 64 + tailBits d))
  else none

/-- The character at the front of the bytes `a :: rest`, and how many bytes of
    `rest` belong to it. -/
def front? (a : UInt8) (rest : Bytes) : Option (Char × Nat) :=
  if a < 0x80 then some (Char.ofNat a.toNat, 0)
  else match rest with
    | [] => none
    | b :: rest => match two? a b with
      | some c => some (c, 1)
      | none => match rest with
        | [] => none
        | c :: rest => match three? a b c with
          | some x => some (x, 2)
          | none => match rest with
            | [] => none
            | d :: _ => (four? a b c d).map (·, 3)

/-- The pieces of a byte string, put in reverse before `acc`; `skip` bytes belong
    to a character already read. -/
def piecesAux (acc : List Piece) (skip : Nat) : Bytes → List Piece
  | [] => acc.reverse
  | a :: rest =>
    match skip with
    | n + 1 => piecesAux acc n rest
    | 0 => match front? a rest with
      | some (c, n) => piecesAux (.char c :: acc) n rest
      | none => piecesAux (.stray a :: acc) 0 rest

/-- The pieces of a byte string, in order. -/
def pieces (bs : Bytes) : List Piece :=
  piecesAux [] 0 bs

/-- Whether a byte string is well-formed text. -/
def isValid (bs : Bytes) : Bool :=
  (pieces bs).all (·.char?.isSome)

/-- The text that a byte string encodes, if it is well-formed. -/
def decode? (bs : Bytes) : Option String :=
  ((pieces bs).mapM Piece.char?).map String.ofList

end CZero.Utf8
