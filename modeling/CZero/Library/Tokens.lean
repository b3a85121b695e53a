import CZero.Native
import CZero.Text.Integer

/-!
# Token functions

Reading truth values, integers and lists of integers out of strings.
-/

namespace CZero.Library

open Native

/-- A cell with the truth value that a string spells, or the null pointer. -/
def parseBool (args : List Cell) : Action Host Cell := do
  let s ← stringArg args 0
  if s = utf8 "true" then returning (Heap.boxBool true)
  else if s = utf8 "false" then returning (Heap.boxBool false)
  else return .null

/-- The argument `i` of the function `name`, a base. -/
def baseArg (name : String) (args : List Cell) (i : Nat) : Action Host Nat := do
  let n ← intArg args i
  if n < 2 ∨ 36 < n then breach name (.base n) else return n.toInt.toNat

/-- A cell with the integer that a string spells in a base, or the null pointer. -/
def parseInt (args : List Cell) : Action Host Cell := do
  let s ← stringArg args 0
  let base ← baseArg "parse_int" args 1
  match Text.int32? base s with
  | some n => returning (Heap.boxInt n)
  | none => return .null

/-- The number of fields of a string. -/
def numTokens (args : List Cell) : Action Host Cell := do
  let s ← stringArg args 0
  return .int (Int32.ofNat (Text.fields s).length)

/-- Whether all fields of a string are integers in a base. -/
def intTokens (args : List Cell) : Action Host Cell := do
  let s ← stringArg args 0
  let base ← baseArg "int_tokens" args 1
  return .ofBool (Text.integers? base s).isSome

/-- An array of the integers that the fields of a string spell in a base. -/
def parseInts (args : List Cell) : Action Host Cell := do
  let s ← stringArg args 0
  let base ← baseArg "parse_ints" args 1
  match Text.integers? base s with
  | some ns => returning (Heap.allocInts ns)
  | none => breach "parse_ints" (.notIntegers s base)

/-- An array of the fields of a string. -/
def parseTokens (args : List Cell) : Action Host Cell := do
  let s ← stringArg args 0
  returning (Heap.allocStrings (Text.fields s))

end CZero.Library
