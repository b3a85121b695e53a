import CZero.Program.Binary
import CZero.Text.Integer
import CZero.Text.Lines
import CZero.Text.Quoted

/-!
# Programs as hexadecimal text

The text form of a program is its binary layout, written as two hexadecimal digits
for every byte, in either case, with white space around them. A `#` starts a
comment that goes to the end of its line. Lines have a maximal length, comments
included.

Faults of the text are reported for the first line that has one; a line that is too
long stops the reading when it is reached.
-/

namespace CZero.HexText

/-- A line of so many bytes or more is refused. -/
def lineLimit : Nat := 65536

/-- Why a text cannot be read. -/
inductive Error where
  /-- A word that has not exactly two bytes. -/
  | token (line : Nat) (token : Bytes)
  /-- A word of two bytes of which `byte` is the first that is no digit. -/
  | digit (line : Nat) (token : Bytes) (byte : UInt8)
  /-- A line that is too long. -/
  | longLine
deriving DecidableEq, Repr

/-- A byte as a code point: its number and, if it is printable, itself. -/
def codePoint (b : UInt8) : Bytes :=
  let c := Char.ofNat b.toNat
  utf8 "U+" ++ zeroPad 4 (upperHex b.toNat)
    ++ (if Text.isPrintable c then utf8 " '" ++ Utf8.encode c ++ utf8 "'" else [])

/-- The text of an error. -/
def Error.message : Error → Bytes
  | .token n t => utf8 "line " ++ decimal n ++ utf8 ": malformed byte " ++ Text.quote t
  | .digit n t b =>
    utf8 "line " ++ decimal n ++ utf8 ": malformed byte " ++ Text.quote t
      ++ utf8 ": encoding/hex: invalid byte: " ++ codePoint b
  | .longLine => utf8 "reading bytecode: bufio.Scanner: token too long"

/-- The byte that a word stands for, on the line `n`. -/
def byteOf (n : Nat) (t : Bytes) : Except Error UInt8 :=
  match t with
  | [a, b] => match Text.digit? 16 a, Text.digit? 16 b with
    | some x, some y => .ok (UInt8.ofNat (x * 16 + y))
    | some _, none => .error (.digit n t b)
    | none, _ => .error (.digit n t a)
  | _ => .error (.token n t)

/-- The words of a line: its fields before a comment. -/
def words (line : Bytes) : List Bytes :=
  Text.fields (line.before 0x23)

/-- The bytes of the words of the line `n`, put behind those in `acc`. -/
def decodeWords (n : Nat) (acc : Array UInt8) : List Bytes → Except Error (Array UInt8)
  | [] => .ok acc
  | t :: ts => do
    let b ← byteOf n t
    decodeWords n (acc.push b) ts

/-- The bytes of lines numbered from `n` on, put behind those in `acc`. -/
def decodeLines (n : Nat) (acc : Array UInt8) : List Bytes → Except Error (Array UInt8)
  | [] => .ok acc
  | l :: ls =>
    if lineLimit ≤ l.length then .error .longLine
    else do
      let acc ← decodeWords n acc (words l)
      decodeLines (n + 1) acc ls

/-- The bytes that a text stands for. -/
def decode (text : Bytes) : Except Error Bytes := do
  return (← decodeLines 1 #[] (Text.lines text)).toList

end CZero.HexText

namespace CZero.Program

/-- Why a text is no program. -/
inductive TextError where
  /-- It is no hexadecimal text. -/
  | text (e : HexText.Error)
  /-- Its bytes are no program. -/
  | binary (e : Binary.Error)
deriving DecidableEq, Repr

/-- The text of an error. -/
def TextError.message : TextError → Bytes
  | .text e => e.message
  | .binary e => e.message

/-- Read a program from hexadecimal text. -/
def ofText (text : Bytes) : Except TextError Program :=
  match HexText.decode text with
  | .error e => .error (.text e)
  | .ok bs => match Binary.read bs with
    | .error e => .error (.binary e)
    | .ok p => .ok p

end CZero.Program
