import CZero.Native
import CZero.Text.Lowercase

/-!
# String functions

Strings are byte strings. A result is always a new block.
-/

namespace CZero.Library

open Native

/-- The length of a string. -/
def stringLength (args : List Cell) : Action Host Cell := do
  let s ← stringArg args 0
  return .int (Int32.ofNat s.length)

/-- The byte at an index of a string, read as a number from 0 to 255. -/
def stringCharAt (args : List Cell) : Action Host Cell := do
  let s ← stringArg args 0
  let i ← intArg args 1
  if i < 0 ∨ s.length ≤ i.toInt then breach "string_charat" (.charIndex i s.length)
  else match s[i.toInt.toNat]? with
    | some b => return .int (Int32.ofNat b.toNat)
    | none => throw .crash

/-- Two strings joined. -/
def stringJoin (args : List Cell) : Action Host Cell := do
  let a ← stringArg args 0
  let b ← stringArg args 1
  returnString (a ++ b)

/-- The part of a string between two indices, which must be in order and inside. -/
def cut (s : Bytes) (i j : Nat) : Except Failure Bytes :=
  if i ≤ j ∧ j ≤ s.length then .ok ((s.drop i).take (j - i)) else .error .crash

/-- A part of a string. -/
def stringSub (args : List Cell) : Action Host Cell := do
  let s ← stringArg args 0
  let i ← intArg args 1
  let j ← intArg args 2
  if i < 0 ∨ j < i ∨ s.length < j.toInt then breach "string_sub" (.range i j s.length)
  else
    let t ← Action.ofResult (cut s i.toInt.toNat j.toInt.toNat)
    returnString t

/-- Whether two strings are equal. -/
def stringEqual (args : List Cell) : Action Host Cell := do
  let a ← stringArg args 0
  let b ← stringArg args 1
  return .ofBool (a == b)

/-- Compare two byte strings, byte by byte and a front part first. -/
def compareBytes : Bytes → Bytes → Int32
  | [], [] => 0
  | [], _ :: _ => -1
  | _ :: _, [] => 1
  | a :: as, b :: bs => if a < b then -1 else if b < a then 1 else compareBytes as bs

/-- The order of two strings: -1, 0 or 1. -/
def stringCompare (args : List Cell) : Action Host Cell := do
  let a ← stringArg args 0
  let b ← stringArg args 1
  return .int (compareBytes a b)

/-- The decimal numeral of an integer. -/
def stringFromInt (args : List Cell) : Action Host Cell := do
  let n ← intArg args 0
  returnString (decimal n.toInt)

/-- The text of a truth value. -/
def stringFromBool (args : List Cell) : Action Host Cell := do
  let n ← intArg args 0
  returnString (boolText n)

/-- The string of one character: the low byte of its number, which is not zero. -/
def stringFromChar (args : List Cell) : Action Host Cell := do
  let n ← intArg args 0
  if n = 0 then breach "string_fromchar" .nulChar
  else returnString [n.toUInt32.toUInt8]

/-- A string in lower case. -/
def stringToLower (args : List Cell) : Action Host Cell := do
  let s ← stringArg args 0
  returnString (Text.lower s)

/-- The number of a character. -/
def charOrd (args : List Cell) : Action Host Cell := do
  return .int (← intArg args 0)

/-- The character of an ASCII code. -/
def charChr (args : List Cell) : Action Host Cell := do
  let n ← intArg args 0
  if n < 0 ∨ 127 < n then breach "char_chr" (.notAscii n) else return .int n

end CZero.Library
