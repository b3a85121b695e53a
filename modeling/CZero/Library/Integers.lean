import CZero.Native

/-!
# Integer functions

Absolute values, extremes and the hexadecimal form of all 32 bits.
-/

namespace CZero.Library

open Native

/-- The greatest integer. -/
def greatest : Int32 := 2147483647

/-- The least integer. -/
def least : Int32 := -2147483648

/-- The absolute value of an integer; the least one has none. -/
def absolute (args : List Cell) : Action Host Cell := do
  let n ← intArg args 0
  if n = least then breach "abs" .leastInt
  else return .int (if n < 0 then -n else n)

/-- The greater of two integers. -/
def maximum (args : List Cell) : Action Host Cell := do
  let a ← intArg args 0
  let b ← intArg args 1
  return .int (if a < b then b else a)

/-- The lesser of two integers. -/
def minimum (args : List Cell) : Action Host Cell := do
  let a ← intArg args 0
  let b ← intArg args 1
  return .int (if b < a then b else a)

/-- The greatest integer. -/
def greatestInt (_ : List Cell) : Action Host Cell :=
  return .int greatest

/-- The least integer. -/
def leastInt (_ : List Cell) : Action Host Cell :=
  return .int least

/-- The number of bits of an integer. -/
def intBits (_ : List Cell) : Action Host Cell :=
  return .int 32

/-- The eight upper-case hexadecimal digits of an integer. -/
def hexDigits (args : List Cell) : Action Host Cell := do
  let n ← intArg args 0
  returnString (zeroPad 8 (upperHex n.toUInt32.toNat))

end CZero.Library
